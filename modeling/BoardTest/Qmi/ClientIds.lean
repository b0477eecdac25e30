import BoardTest.Qmi.ControlChannel
import Mathlib.Data.List.Nodup

/-!
# Whose client ids are whose

The modem gives out a client id in the answer to a control request, and the proxy notes it at the
connection that the answer is handed to. `register` keeps the book of this from outside, as a map
from client ids to descriptors. When the modem gives out no id that is taken, and takes one back
only on the request of its owner, the lists of the proxy are that map (`handle_registered`), and a
message of a service reaches whom it is for (`service_messages_reach_owner`).
-/

namespace BoardTest.Qmi

open Proxy

/-- A complete control response. -/
def Response (bs : List Byte) : Prop :=
  Complete bs ∧ hdrType bs = QMUX_TYPE_CTL ∧ ctlFlags bs = QMICTL_CTL_FLAG_RSP

instance (bs : List Byte) : Decidable (Response bs) := by unfold Response; infer_instance

/-- The client id that a response gives out. -/
def granted (qmi : List Byte) : Option Clinet :=
  if ctlType qmi = QMICTL_GET_CLIENT_ID_RESP ∧ rspResult qmi = 0 ∧ rspError qmi = 0 then
    some ⟨rspType qmi, rspClientId qmi⟩
  else none

/-- The client id that a response takes back. -/
def takenBack (qmi : List Byte) : Option Clinet :=
  if (ctlType qmi = QMICTL_RELEASE_CLIENT_ID_RESP ∨ ctlType qmi = QMICTL_REVOKE_CLIENT_ID_IND) ∧
      rspResult qmi = 0 ∧ rspError qmi = 0 then
    some ⟨rspType qmi, rspClientId qmi⟩
  else none

/-- Whom a client id belongs to. -/
abbrev Registry := Clinet → Option Byte

/-- A descriptor has gone, and what belonged to it belongs to nobody. -/
def Registry.drop (reg : Registry) (fd : Byte) : Registry :=
  fun p => if reg p = some fd then none else reg p

/-- A response, handed to `fd`. -/
def Registry.note (reg : Registry) (fd : Byte) (bs : List Byte) : Registry :=
  match granted bs, takenBack bs with
  | some p, _ => Function.update reg p (some fd)
  | none, some p => Function.update reg p none
  | none, none => reg

/-- The book after an event. -/
def register (s : Proxy) (reg : Registry) : Event → Registry
  | .modem bs =>
    match s.ctlMsg.head? with
    | some m =>
      if Response bs ∧ m.clientFd ∈ s.connections.map (·.clientFd) then reg.note m.clientFd bs
      else reg
    | none => reg
  | .client fd bs => if bs = [] then reg.drop fd else reg
  | .clientFailed fd => reg.drop fd
  | _ => reg

/-- The proxy with the book beside it. -/
def handleRegistered (t : Proxy × Registry) (e : Event) : (Proxy × Registry) × List Action :=
  (((t.1.handle e).1, register t.1 t.2 e), (t.1.handle e).2)

/-- A response holds its result, and the client id that it is about. -/
def Answered (bs : List Byte) : Prop :=
  19 ≤ bs.length ∧ (granted bs ≠ none ∨ takenBack bs ≠ none → 24 ≤ bs.length)

instance (bs : List Byte) : Decidable (Answered bs) := by unfold Answered; infer_instance

/-- The modem gives out no id that belongs to somebody, and takes one back only in its answer to the
owner. -/
def Lawful (t : Proxy × Registry) (e : Event) : Prop :=
  t.1.looping = true ∧
    match e with
    | .accept fd => 0 ≤ fd ∧ fd < 256 ∧ ∀ con ∈ t.1.connections, (con.clientFd.toNat : Int) ≠ fd
    | .modem bs => Headed bs ∧ (Response bs → Answered bs ∧
        (∀ p ∈ granted bs, t.2 p = none) ∧
        ∀ p ∈ takenBack bs, ∀ fd ∈ t.2 p, t.1.ctlMsg.head?.map (·.clientFd) = some fd)
    | .client _ bs => Headed bs
    | _ => True

instance (t : Proxy × Registry) : (e : Event) → Decidable (Lawful t e)
  | .accept fd => inferInstanceAs (Decidable (t.1.looping = true ∧ 0 ≤ fd ∧ fd < 256 ∧
      ∀ con ∈ t.1.connections, (con.clientFd.toNat : Int) ≠ fd))
  | .modem bs => inferInstanceAs (Decidable (t.1.looping = true ∧ (bs ≠ [] → 12 ≤ bs.length) ∧
      (Response bs → Answered bs ∧ (∀ p ∈ granted bs, t.2 p = none) ∧
        ∀ p ∈ takenBack bs, ∀ fd ∈ t.2 p, t.1.ctlMsg.head?.map (·.clientFd) = some fd)))
  | .modemFailed => inferInstanceAs (Decidable (t.1.looping = true ∧ True))
  | .client _ bs => inferInstanceAs (Decidable (t.1.looping = true ∧ (bs ≠ [] → 12 ≤ bs.length)))
  | .clientFailed _ => inferInstanceAs (Decidable (t.1.looping = true ∧ True))

/-- The connections are what the book says. -/
structure Registered (s : Proxy) (reg : Registry) : Prop where
  nodup : (s.connections.map (·.clientFd)).Nodup
  each : ∀ con ∈ s.connections, con.clients.Nodup
  agrees : ∀ con ∈ s.connections, ∀ p, p ∈ con.clients ↔ reg p = some con.clientFd
  known : ∀ p fd, reg p = some fd → fd ∈ s.connections.map (·.clientFd)

/-- What a response does to the connection that it is handed to. -/
theorem noteResponse_cases (qmi : List Byte) :
    (∃ p, granted qmi = some p ∧
      ∀ con, noteResponse con qmi = { con with clients := con.clients ++ [p] }) ∨
    (∃ p, granted qmi = none ∧ takenBack qmi = some p ∧
      ∀ con, noteResponse con qmi = { con with clients := con.clients.erase p }) ∨
    (granted qmi = none ∧ takenBack qmi = none ∧ ∀ con, noteResponse con qmi = con) := by
  unfold granted takenBack noteResponse getClientId releaseClientId
  by_cases hok : rspResult qmi = 0 ∧ rspError qmi = 0
  · by_cases hget : ctlType qmi = QMICTL_GET_CLIENT_ID_RESP
    · exact .inl ⟨_, if_pos ⟨hget, hok⟩, fun con => by rw [if_pos hget, if_pos hok]⟩
    · by_cases hrel : ctlType qmi = QMICTL_RELEASE_CLIENT_ID_RESP ∨
        ctlType qmi = QMICTL_REVOKE_CLIENT_ID_IND
      · refine .inr (.inl ⟨_, if_neg fun h => hget h.1, if_pos ⟨hrel, hok⟩, fun con => ?_⟩)
        rw [if_neg hget, if_pos hrel, if_pos hok]
      · refine .inr (.inr ⟨if_neg fun h => hget h.1, if_neg fun h => hrel h.1, fun con => ?_⟩)
        rw [if_neg hget, if_neg hrel]
  · refine .inr (.inr ⟨if_neg fun h => hok h.2, if_neg fun h => hok h.2, fun con => ?_⟩)
    simp [hok]

theorem ids_load (buf : List Byte) {bs : List Byte} (h : Answered bs) :
    granted (load buf bs) = granted bs ∧ takenBack (load buf bs) = takenBack bs := by
  obtain ⟨hlen, hid⟩ := h
  have htype : ctlType (load buf bs) = ctlType bs := le16_load (by omega)
  have hresult : rspResult (load buf bs) = rspResult bs := le16_load (by omega)
  have herror : rspError (load buf bs) = rspError bs := le16_load (by omega)
  unfold granted takenBack at hid ⊢
  rw [htype, hresult, herror]
  constructor
  · split
    case isFalse => rfl
    case isTrue hget =>
      have h24 := hid (.inl (by rw [if_pos hget]; exact Option.some_ne_none _))
      rw [rspType, rspClientId, getD_load (by omega), getD_load (by omega)]
      rfl
  · split
    case isFalse => rfl
    case isTrue hrel =>
      have h24 := hid (.inr (by rw [if_pos hrel]; exact Option.some_ne_none _))
      rw [rspType, rspClientId, getD_load (by omega), getD_load (by omega)]
      rfl

theorem Registry.note_eq_some {reg : Registry} {fd fd' : Byte} {qmi : List Byte} {p : Clinet}
    (h : reg.note fd qmi p = some fd') : fd' = fd ∨ reg p = some fd' := by
  unfold Registry.note at h
  cases hg : granted qmi with
  | some g =>
    simp only [hg, Function.update_apply] at h
    split at h
    · exact .inl (Option.some.inj h).symm
    · exact .inr h
  | none =>
    cases hb : takenBack qmi with
    | some b =>
      simp only [hg, hb, Function.update_apply] at h
      split at h
      · exact absurd h (Option.some_ne_none _).symm
      · exact .inr h
    | none =>
      rw [hg, hb] at h
      exact .inr h

section
variable {s t : Proxy} {reg : Registry} {fd : Byte}

theorem Registered.of_connections (h : Registered s reg) (ht : t.connections = s.connections) :
    Registered t reg := by
  constructor
  · rw [ht]; exact h.nodup
  · rw [ht]; exact h.each
  · rw [ht]; exact h.agrees
  · rw [ht]; exact h.known

theorem Registered.accept (h : Registered s reg) {clientfd : Int} (hpos : 0 ≤ clientfd)
    (hlt : clientfd < 256) (hfresh : ∀ con ∈ s.connections, (con.clientFd.toNat : Int) ≠ clientfd) :
    Registered (acceptQmiConnection s clientfd) reg := by
  have hnew := not_mem_of_fresh hpos hlt hfresh
  constructor
  · exact nodup_accept h.nodup hnew
  · intro con hcon
    rcases List.mem_append.mp hcon with hcon | hcon
    · exact h.each con hcon
    · rw [List.mem_singleton.mp hcon]
      exact List.nodup_nil
  · intro con hcon p
    rcases List.mem_append.mp hcon with hcon | hcon
    · exact h.agrees con hcon p
    · rw [List.mem_singleton.mp hcon]
      refine iff_of_false List.not_mem_nil fun hp => hnew ?_
      exact h.known p _ hp
  · intro p fd hp
    simp only [acceptQmiConnection, List.map_append, List.mem_append]
    exact .inl (h.known p fd hp)

theorem Registered.cleanup (h : Registered s reg) (fd : Byte) :
    Registered (cleanupQmiConnection s fd).1 (reg.drop fd) := by
  have hleft : ∀ con ∈ s.connections, con.clientFd ≠ fd → ∀ p,
      p ∈ con.clients ↔ reg.drop fd p = some con.clientFd := by
    intro con hcon hne p
    rw [h.agrees con hcon p, Registry.drop]
    split
    case isTrue hp =>
      rw [hp]
      exact iff_of_false (fun heq => hne (Option.some.inj heq).symm)
        (Option.some_ne_none _).symm
    case isFalse => rfl
  have hknown : ∀ p fd', reg.drop fd p = some fd' →
      fd' ≠ fd ∧ fd' ∈ s.connections.map (·.clientFd) := by
    intro p fd' hp
    rw [Registry.drop] at hp
    split at hp
    case isTrue => exact absurd hp (Option.some_ne_none _).symm
    case isFalse hne => exact ⟨fun heq => hne (heq ▸ hp), h.known p fd' hp⟩
  have hfds := map_clientFd_eraseP s.connections fd
  unfold cleanupQmiConnection
  split
  case isTrue =>
    have hmem : ∀ con ∈ s.connections.eraseP (·.clientFd = fd),
        con ∈ s.connections ∧ con.clientFd ≠ fd := by
      intro con hcon
      refine ⟨List.mem_of_mem_eraseP hcon, ?_⟩
      have hmap : con.clientFd ∈ (s.connections.map (·.clientFd)).erase fd :=
        hfds ▸ List.mem_map.mpr ⟨con, hcon, rfl⟩
      exact (h.nodup.mem_erase_iff.mp hmap).1
    constructor
    · rw [hfds]
      exact h.nodup.erase fd
    · exact fun con hcon => h.each con (hmem con hcon).1
    · exact fun con hcon => hleft con (hmem con hcon).1 (hmem con hcon).2
    · intro p fd' hp
      rw [hfds, h.nodup.mem_erase_iff]
      exact hknown p fd' hp
  case isFalse hany =>
    have hne : ∀ con ∈ s.connections, con.clientFd ≠ fd := by
      intro con hcon heq
      exact hany (List.any_eq_true.mpr ⟨con, hcon, by simpa using heq⟩)
    exact ⟨h.nodup, h.each, fun con hcon => hleft con hcon (hne con hcon),
      fun p fd' hp => (hknown p fd' hp).2⟩

/-- A response, handed to the connections of the descriptor `fd`: what one of them has then. -/
theorem Registered.note_clients (h : Registered s reg) {qmi : List Byte}
    (hfresh : ∀ p ∈ granted qmi, reg p = none)
    (hown : ∀ p ∈ takenBack qmi, ∀ fd' ∈ reg p, fd' = fd) {con : Connection}
    (hcon : con ∈ s.connections) :
    (if con.clientFd = fd then noteResponse con qmi else con).clients.Nodup ∧
      ∀ p, p ∈ (if con.clientFd = fd then noteResponse con qmi else con).clients ↔
        reg.note fd qmi p = some con.clientFd := by
  have hnodup := h.each con hcon
  have hagrees := h.agrees con hcon
  unfold Registry.note
  rcases noteResponse_cases qmi with ⟨p, hp, hnote⟩ | ⟨p, hg, hp, hnote⟩ | ⟨hg, hb, hnote⟩
  · have hnone := hfresh p hp
    have hnot : p ∉ con.clients := by
      rw [hagrees, hnone]
      exact (Option.some_ne_none _).symm
    rw [hp]
    by_cases hfd : con.clientFd = fd
    · rw [if_pos hfd, hnote, hfd]
      refine ⟨List.nodup_append_comm.mp (List.nodup_cons.mpr ⟨hnot, hnodup⟩), fun p' => ?_⟩
      by_cases heq : p' = p
      · simp [heq]
      · simp [heq, hagrees, hfd]
    · rw [if_neg hfd]
      refine ⟨hnodup, fun p' => ?_⟩
      by_cases heq : p' = p
      · simp [heq, hnot, Ne.symm hfd]
      · simp [heq, hagrees]
  · rw [hg, hp]
    by_cases hfd : con.clientFd = fd
    · rw [if_pos hfd, hnote]
      refine ⟨hnodup.erase p, fun p' => ?_⟩
      rw [hnodup.mem_erase_iff]
      by_cases heq : p' = p
      · simp [heq]
      · simp [heq, hagrees]
    · rw [if_neg hfd]
      refine ⟨hnodup, fun p' => ?_⟩
      by_cases heq : p' = p
      · have hnot : p ∉ con.clients := by
          intro hmem
          exact hfd (hown p hp con.clientFd ((hagrees p).mp hmem))
        simp [heq, hnot]
      · simp [heq, hagrees]
  · rw [hg, hb, hnote, ite_self]
    exact ⟨hnodup, hagrees⟩

theorem Registered.note (h : Registered s reg) {qmi : List Byte}
    (hfd : fd ∈ s.connections.map (·.clientFd)) (hfresh : ∀ p ∈ granted qmi, reg p = none)
    (hown : ∀ p ∈ takenBack qmi, ∀ fd' ∈ reg p, fd' = fd)
    (ht : t.connections = s.connections.map fun con =>
      if con.clientFd = fd then noteResponse con qmi else con) :
    Registered t (reg.note fd qmi) := by
  have hfds : t.connections.map (·.clientFd) = s.connections.map (·.clientFd) := by
    rw [ht, map_clientFd_noteResponse]
  have hcases : ∀ con' ∈ t.connections, con'.clients.Nodup ∧
      ∀ p, p ∈ con'.clients ↔ reg.note fd qmi p = some con'.clientFd := by
    intro con' hcon'
    rw [ht] at hcon'
    obtain ⟨con, hcon, rfl⟩ := List.mem_map.mp hcon'
    have hkeep : (if con.clientFd = fd then noteResponse con qmi else con).clientFd =
        con.clientFd := by
      split
      · rw [noteResponse_clientFd]
      · rfl
    rw [hkeep]
    exact h.note_clients hfresh hown hcon
  refine ⟨hfds ▸ h.nodup, fun con hcon => (hcases con hcon).1,
    fun con hcon => (hcases con hcon).2, ?_⟩
  intro p fd' hp
  rw [hfds]
  rcases Registry.note_eq_some hp with rfl | hp
  · exact hfd
  · exact h.known p fd' hp

/-- The connections after a read of the modem that does not end the loop. -/
theorem readModem_connections {bs : List Byte} (hhead : Headed bs)
    (hloop : (readModem s bs).1.looping = true) :
    (readModem s bs).1.connections =
      if Response bs then
        match s.ctlMsg.head? with
        | some m => s.connections.map fun con =>
            if con.clientFd = m.clientFd then noteResponse con (load s.qmiBuf bs) else con
        | none => s.connections
      else s.connections := by
  by_cases hnil : bs = []
  · subst hnil
    exact absurd hloop Bool.false_ne_true
  have hlen := hhead hnil
  rw [readModem, if_neg hnil] at hloop ⊢
  by_cases hbs : Complete bs
  case neg =>
    have hrsp : ¬ Response bs := fun h => hbs h.1
    rw [if_neg ((complete_load hlen).not.mpr hbs), if_neg hrsp]
  rw [if_pos ((complete_load hlen).mpr hbs)] at hloop ⊢
  have htype : hdrType (load s.qmiBuf bs) = hdrType bs := getD_load (by omega)
  have hflags : ctlFlags (load s.qmiBuf bs) = ctlFlags bs := getD_load (by omega)
  dsimp only at hloop ⊢
  split at hloop
  case isTrue => exact absurd hloop Bool.false_ne_true
  case isFalse hreset =>
    rw [if_neg hreset]
    by_cases hctl : hdrType bs = QMUX_TYPE_CTL
    case neg =>
      have hother : ¬ Response bs := fun h => hctl h.2.1
      rw [recvQmi, if_neg (htype ▸ hctl), if_neg hother]
    by_cases hrsp : ctlFlags bs = QMICTL_CTL_FLAG_RSP
    case neg =>
      have hother : ¬ Response bs := fun h => hrsp h.2.2
      rw [recvQmi, if_pos (htype.trans hctl), if_neg (hflags ▸ hrsp), if_neg hother]
    have hresponse : Response bs := ⟨hbs, hctl, hrsp⟩
    rw [recvQmi, if_pos (htype.trans hctl), if_pos (hflags.trans hrsp), if_pos hresponse]
    cases hqueue : s.ctlMsg <;> simp [recvResponse]

/-- The lists of the proxy stay what the book says. -/
theorem handle_registered {e : Event} (h : Registered s reg) (he : Lawful (s, reg) e)
    (hnext : (s.handle e).1.looping = true) : Registered (s.handle e).1 (register s reg e) := by
  obtain ⟨hloop, he⟩ := he
  cases e with
  | accept clientfd =>
    unfold Proxy.handle
    rw [if_pos hloop]
    exact h.accept he.1 he.2.1 he.2.2
  | modem bs =>
    rw [handle_modem hloop] at hnext ⊢
    have hcons := readModem_connections he.1 hnext
    rw [register]
    by_cases hrsp : Response bs
    case neg =>
      rw [if_neg hrsp] at hcons
      have hreg : ∀ m : Msg, ¬ (Response bs ∧ m.clientFd ∈ s.connections.map (·.clientFd)) :=
        fun m hm => hrsp hm.1
      cases s.ctlMsg.head? with
      | none => exact h.of_connections hcons
      | some m =>
        dsimp only
        rw [if_neg (hreg m)]
        exact h.of_connections hcons
    rw [if_pos hrsp] at hcons
    cases hqueue : s.ctlMsg.head? with
    | none =>
      rw [hqueue] at hcons
      exact h.of_connections hcons
    | some m =>
      rw [hqueue] at hcons
      dsimp only at hcons ⊢
      obtain ⟨hanswered, hfresh, hown⟩ := he.2 hrsp
      by_cases hfd : m.clientFd ∈ s.connections.map (·.clientFd)
      · obtain ⟨hgranted, htaken⟩ := ids_load s.qmiBuf hanswered
        have hnote : reg.note m.clientFd bs = reg.note m.clientFd (load s.qmiBuf bs) := by
          rw [Registry.note, Registry.note, hgranted, htaken]
        rw [if_pos ⟨hrsp, hfd⟩, hnote]
        refine h.note hfd (by rw [hgranted]; exact hfresh) ?_ hcons
        intro p hp fd' hfd'
        have heq : s.ctlMsg.head?.map (·.clientFd) = some fd' := hown p (htaken ▸ hp) fd' hfd'
        rw [hqueue] at heq
        exact (Option.some.inj heq).symm
      · have hgone : ∀ con ∈ s.connections, con.clientFd ≠ m.clientFd :=
          fun con hcon heq => hfd (List.mem_map.mpr ⟨con, hcon, heq⟩)
        rw [if_neg fun h => hfd h.2]
        refine h.of_connections (hcons.trans ?_)
        conv_rhs => rw [← List.map_id s.connections]
        exact List.map_congr_left fun con hcon => if_neg (hgone con hcon)
  | modemFailed =>
    unfold Proxy.handle at hnext
    rw [if_pos hloop] at hnext
    exact absurd hnext Bool.false_ne_true
  | client fd bs =>
    unfold Proxy.handle
    rw [if_pos hloop, register]
    by_cases hnil : bs = []
    · dsimp only
      rw [readClient, if_pos hnil, if_pos hnil]
      exact h.cleanup fd
    · dsimp only
      rw [readClient, if_neg hnil, if_neg hnil]
      refine h.of_connections ?_
      dsimp only
      split
      · unfold sendQmi
        split <;> rfl
      · rfl
  | clientFailed fd =>
    rw [handle_clientFailed hloop, register]
    exact h.cleanup fd

/-- Of client ids that differ, those that are `p`. -/
theorem filter_eq_of_nodup {clients : List Clinet} (h : clients.Nodup) (p : Clinet) :
    clients.filter (· = p) = if p ∈ clients then [p] else [] := by
  rw [List.filter_eq]
  split
  case isTrue hp => rw [List.count_eq_one_of_mem h hp]; rfl
  case isFalse hp => rw [List.count_eq_zero_of_not_mem hp]; rfl

theorem flatMap_if {α : Type} (cons : List Connection) (fd : Byte) (a : α) :
    (cons.flatMap fun con => if con.clientFd = fd then [a] else []) =
      (cons.filter (·.clientFd = fd)).map fun _ => a := by
  induction cons with
  | nil => rfl
  | cons con cons ih =>
    rw [List.flatMap_cons, ih]
    by_cases h : con.clientFd = fd
    · rw [if_pos h, List.filter_cons_of_pos (by simpa using h)]
      rfl
    · rw [if_neg h, List.filter_cons_of_neg (by simpa using h)]
      rfl

/-- A message for one client id goes to its owner. -/
theorem Registered.recvService (h : Registered s reg) {qmi : List Byte}
    (hid : hdrClientId qmi ≠ 0) :
    recvService s qmi = ((reg ⟨hdrType qmi, hdrClientId qmi⟩).map
      fun fd => .toClient fd (frame qmi)).toList := by
  obtain ⟨p, hp⟩ : ∃ p, p = Clinet.mk (hdrType qmi) (hdrClientId qmi) := ⟨_, rfl⟩
  have hpred : ∀ client : Clinet, (hdrType qmi = client.qmiType ∧
      (hdrClientId qmi = 0 ∨ hdrClientId qmi = client.clientId)) ↔ client = p := by
    intro client
    rw [hp, Clinet.mk.injEq, or_iff_right hid, eq_comm, eq_comm (a := hdrClientId qmi)]
  have hcon : ∀ con ∈ s.connections, ((con.clients.filter fun client =>
      hdrType qmi = client.qmiType ∧ (hdrClientId qmi = 0 ∨ hdrClientId qmi = client.clientId)).map
        fun _ => Action.toClient con.clientFd (frame qmi)) =
      if reg p = some con.clientFd then [.toClient con.clientFd (frame qmi)] else [] := by
    intro con hcon
    have hfilter := filter_eq_of_nodup (h.each con hcon) p
    simp only [hpred, hfilter, h.agrees con hcon p]
    split <;> rfl
  rw [Qmi.recvService, ← hp, List.flatMap_congr hcon]
  cases hreg : reg p with
  | none => simp
  | some fd =>
    obtain ⟨con, rfl, hfilter⟩ := filter_clientFd h.nodup (h.known p fd hreg)
    have hsame : ∀ con' ∈ s.connections,
        (if some con.clientFd = some con'.clientFd then
          [Action.toClient con'.clientFd (frame qmi)] else []) =
        if con'.clientFd = con.clientFd then [.toClient con.clientFd (frame qmi)] else [] := by
      intro con' _
      by_cases heq : con'.clientFd = con.clientFd
      · rw [if_pos heq, heq, if_pos rfl]
      · rw [if_neg heq, if_neg fun h => heq (Option.some.inj h).symm]
    rw [List.flatMap_congr hsame, flatMap_if, hfilter]
    rfl

/-- A message for all goes to whoever has a client id of the service. -/
theorem Registered.mem_recvService (h : Registered s reg) {qmi : List Byte}
    (hid : hdrClientId qmi = 0) (fd : Byte) :
    .toClient fd (frame qmi) ∈ Qmi.recvService s qmi ↔ ∃ id, reg ⟨hdrType qmi, id⟩ = some fd := by
  rw [Qmi.recvService, List.mem_flatMap]
  constructor
  · rintro ⟨con, hcon, hmem⟩
    obtain ⟨client, hclient, heq⟩ := List.mem_map.mp hmem
    obtain ⟨hclient, hmatch⟩ := List.mem_filter.mp hclient
    refine ⟨client.clientId, ?_⟩
    rw [show hdrType qmi = client.qmiType from (of_decide_eq_true hmatch).1,
      (h.agrees con hcon client).mp hclient, (Action.toClient.inj heq).1]
  · rintro ⟨id, hreg⟩
    obtain ⟨con, hcon, rfl⟩ := List.mem_map.mp (h.known _ fd hreg)
    refine ⟨con, hcon, List.mem_map.mpr ⟨⟨hdrType qmi, id⟩, List.mem_filter.mpr ⟨?_, ?_⟩, rfl⟩⟩
    · exact (h.agrees con hcon _).mpr hreg
    · exact decide_eq_true ⟨rfl, .inl hid⟩

/-- A loop that goes on has not seen a reset. -/
theorem handle_modemResetFlag {e : Event} (h : s.modemResetFlag = false)
    (hnext : (s.handle e).1.looping = true) : (s.handle e).1.modemResetFlag = false := by
  unfold Proxy.handle at hnext ⊢
  by_cases hloop : s.looping = true
  case neg =>
    rw [if_neg hloop] at hnext
    exact absurd hnext hloop
  have hcleanup : ∀ fd, (cleanupQmiConnection s fd).1.modemResetFlag = false := by
    intro fd
    unfold cleanupQmiConnection
    split <;> exact h
  rw [if_pos hloop] at hnext ⊢
  cases e with
  | accept clientfd => exact h
  | modem bs =>
    dsimp only at hnext ⊢
    unfold readModem at hnext ⊢
    dsimp only at hnext ⊢
    split at hnext
    case isTrue => exact absurd hnext Bool.false_ne_true
    case isFalse hnil =>
      rw [if_neg hnil]
      split at hnext
      case isTrue hbs =>
        rw [if_pos hbs]
        split at hnext
        case isTrue => exact absurd hnext Bool.false_ne_true
        case isFalse hreset =>
          rw [if_neg hreset]
          exact Bool.eq_false_of_not_eq_true hreset
      case isFalse hbs =>
        rw [if_neg hbs]
        exact h
  | modemFailed => exact absurd hnext Bool.false_ne_true
  | client fd bs =>
    dsimp only
    unfold readClient
    split
    · exact hcleanup fd
    · dsimp only
      split
      · unfold sendQmi
        split <;> exact h
      · exact h
  | clientFailed fd => exact hcleanup fd

end

/-! ## Runs -/

/-- What a run keeps while the loop goes on. -/
def Kept (t : Proxy × Registry) : Prop :=
  t.1.looping = true → Registered t.1 t.2 ∧ t.1.modemResetFlag = false

theorem run_kept (buf : List Byte) {es : List Event}
    (hes : Throughout handleRegistered Lawful (.start buf, fun _ => none) es) :
    Kept (react handleRegistered (.start buf, fun _ => none) es).1 := by
  have hstart : Kept (.start buf, fun _ => none) := fun _ =>
    ⟨⟨List.nodup_nil, by simp [Proxy.start], by simp [Proxy.start], by simp⟩, rfl⟩
  have hstep : ∀ t e, Kept t → Lawful t e → Kept (handleRegistered t e).1 := by
    intro t e ht he hnext
    obtain ⟨hreg, hflag⟩ := ht he.1
    exact ⟨handle_registered hreg he hnext, handle_modemResetFlag hflag hnext⟩
  exact react_invariant hstep hstart hes

/-- Messages of the services: after any run in which the modem gives out client ids as it
should, a message for a client id goes to the connection that was handed the id, or to nobody when
it has gone or given the id back; a message for all clients of a service goes to the connections
that have an id of it. -/
theorem service_messages_reach_owner (buf : List Byte) (es : List Event)
    (hes : Throughout handleRegistered Lawful (.start buf, fun _ => none) es) (bs : List Byte)
    (hlen : 12 ≤ bs.length) (hbs : Complete bs) (htype : hdrType bs ≠ QMUX_TYPE_CTL) :
    let t := (react handleRegistered (.start buf, fun _ => none) es).1
    t.1.looping = true →
      (hdrClientId bs ≠ 0 → (t.1.handle (.modem bs)).2 =
        ((t.2 ⟨hdrType bs, hdrClientId bs⟩).map fun fd => .toClient fd bs).toList) ∧
      (hdrClientId bs = 0 → ∀ fd, .toClient fd bs ∈ (t.1.handle (.modem bs)).2 ↔
        ∃ id, t.2 ⟨hdrType bs, id⟩ = some fd) := by
  intro t hloop
  obtain ⟨hreg, hflag⟩ := run_kept buf hes hloop
  have hnil : bs ≠ [] := by
    rintro rfl
    simp at hlen
  have hframe := frame_load t.1.qmiBuf hlen hbs
  have htype' : hdrType (load t.1.qmiBuf bs) = hdrType bs := getD_load (by omega)
  have hid : hdrClientId (load t.1.qmiBuf bs) = hdrClientId bs := getD_load (by omega)
  have hact : (t.1.handle (.modem bs)).2 =
      recvService { t.1 with qmiBuf := load t.1.qmiBuf bs } (load t.1.qmiBuf bs) := by
    rw [handle_modem hloop, readModem, if_neg hnil, if_pos ((complete_load hlen).mpr hbs),
      recvQmi, if_neg (htype' ▸ htype)]
    dsimp only
    rw [if_neg (by rw [hflag]; exact Bool.false_ne_true)]
  have hreg' : Registered { t.1 with qmiBuf := load t.1.qmiBuf bs } t.2 := hreg.of_connections rfl
  rw [hact]
  constructor
  · intro hne
    rw [hreg'.recvService (hid ▸ hne), htype', hid, hframe]
  · intro hzero fd
    have hmem := hreg'.mem_recvService (hid.trans hzero) fd
    rwa [htype', hframe] at hmem

/-- Two clients ask for an id of the service 1, and the second one is written to. -/
def askId (transaction : Byte) : List Byte :=
  [1, 15, 0, 0, 0, 0, 0, transaction, 0x22, 0, 4, 0, 1, 1, 0, 1]

def idReply (transaction id : Byte) : List Byte :=
  [1, 23, 0, 0x80, 0, 0, 1, transaction, 0x22, 0, 12, 0, 2, 4, 0, 0, 0, 0, 0, 1, 2, 0, 1, id]

theorem service_messages_reach_second :
    let s := (react handleRegistered (.start [], fun _ => none) [.accept 5, .accept 6,
      .client 5 (askId 1), .client 6 (askId 1), .modem (idReply 1 7), .modem (idReply 1 8)]).1.1
    (s.handle (.modem [1, 12, 0, 0x80, 1, 8, 4, 1, 0, 0x22, 0, 0, 0])).2 =
      [.toClient 6 [1, 12, 0, 0x80, 1, 8, 4, 1, 0, 0x22, 0, 0, 0]] := by
  exact (service_messages_reach_owner [] [.accept 5, .accept 6, .client 5 (askId 1),
    .client 6 (askId 1), .modem (idReply 1 7), .modem (idReply 1 8)] (by decide)
    [1, 12, 0, 0x80, 1, 8, 4, 1, 0, 0x22, 0, 0, 0] (by decide) (by decide) (by decide)
    (by decide)).1 (by decide)

end BoardTest.Qmi
