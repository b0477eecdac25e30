import BoardTest.Lib.Decimal
import BoardTest.Lib.Lines
import BoardTest.Lib.Superseded
import BoardTest.Lib.Totals
import Mathlib.Data.List.Infix

/-!
# The name servers of the modem in /etc/resolv.conf

`update_resolv_conf` rewrites the file whenever a connection comes up or goes down: it drops the
lines that have the tag of the interface, puts the new servers in front and copies the rest. Over a
run of updates the file holds what it should (`resolv_conf_after_updates`) as long as there are at
most sixteen lines to copy and none of them is blank: a blank line is copied as two, and after five
updates nothing is left of what stood behind it (`blank_lines_crowd_out`).
-/

namespace BoardTest.Qmi

open Numeral

def MAX_DNS : Nat := 16

/-- The arguments of `update_resolv_conf`. -/
structure DnsUpdate where
  iptype : Nat
  ifname : List Byte
  dns1 : Option (List Byte)
  dns2 : Option (List Byte)

def DnsUpdate.dnsTag (u : DnsUpdate) : List Byte :=
  snprintf 64 "# IPV%d %s" [decimal u.iptype, u.ifname]

/-- What is printed for a server, without the newline. -/
def serverLine (dns dnsTag : List Byte) : List Byte := sprintf "nameserver %s %s" [dns, dnsTag]

/-- The lines that are written in front. -/
def DnsUpdate.servers (u : DnsUpdate) : List (List Byte) :=
  (u.dns1.toList ++ u.dns2.toList).map (serverLine · u.dnsTag)

/-- `dns_line` as it is looked at: the string that `fgets` has left in it, without its newline. A
newline alone stays. -/
def dnsLine (chunk : List Byte) : List Byte :=
  let dns_line := cstr chunk
  if 1 < dns_line.length ∧ dns_line.getLast? = some 10 then dns_line.dropLast else dns_line

/-- The loop over the file: the number of lines with the tag, and the lines to copy. -/
def readLines (dnsTag : List Byte) : Nat → List (List Byte) → List (List Byte) →
    Nat × List (List Byte)
  | dns_match, dns_info, [] => (dns_match, dns_info)
  | dns_match, dns_info, chunk :: chunks =>
    if dnsTag <:+: dnsLine chunk then readLines dnsTag (dns_match + 1) dns_info chunks
    else if dns_info.length + 1 = MAX_DNS then (dns_match, dns_info ++ [dnsLine chunk])
    else readLines dnsTag dns_match (dns_info ++ [dnsLine chunk]) chunks

/-- A file with these lines. -/
def fileOf (ls : List (List Byte)) : List Byte := (ls.map (· ++ [10])).flatten

/-- `update_resolv_conf`, on the content of the file, if there is one. -/
def updateResolvConf (file : Option (List Byte)) (u : DnsUpdate) : Option (List Byte) :=
  let (dns_match, dns_info) := readLines u.dnsTag 0 [] (fgetsAll 255 [] (file.getD []))
  if u.dns1 = none ∧ dns_match = 0 then file else some (fileOf (u.servers ++ dns_info))

/-- The lines that have not got the tag. -/
def untagged (dnsTag : List Byte) (ls : List (List Byte)) : List (List Byte) :=
  ls.filter fun l => ¬ dnsTag <:+: l

theorem untagged_append (dnsTag : List Byte) (ls ks : List (List Byte)) :
    untagged dnsTag (ls ++ ks) = untagged dnsTag ls ++ untagged dnsTag ks := List.filter_append ..

theorem untagged_cons_hit {dnsTag l : List Byte} (h : dnsTag <:+: l) (ls : List (List Byte)) :
    untagged dnsTag (l :: ls) = untagged dnsTag ls :=
  List.filter_cons_of_neg (by simpa using h)

theorem untagged_cons_miss {dnsTag l : List Byte} (h : ¬ dnsTag <:+: l) (ls : List (List Byte)) :
    untagged dnsTag (l :: ls) = l :: untagged dnsTag ls :=
  List.filter_cons_of_pos (by simpa using h)

theorem readLines_info (dnsTag : List Byte) {dns_match : Nat} {dns_info : List (List Byte)}
    (h : dns_info.length < MAX_DNS) (chunks : List (List Byte)) :
    (readLines dnsTag dns_match dns_info chunks).2 =
      dns_info ++ (untagged dnsTag (chunks.map dnsLine)).take (MAX_DNS - dns_info.length) := by
  induction chunks generalizing dns_match dns_info with
  | nil => simp [readLines, untagged]
  | cons chunk chunks ih =>
    rw [readLines, List.map_cons]
    by_cases htag : dnsTag <:+: dnsLine chunk
    · rw [if_pos htag, untagged_cons_hit htag]
      exact ih h
    · rw [if_neg htag, untagged_cons_miss htag]
      have hlen : (dns_info ++ [dnsLine chunk]).length = dns_info.length + 1 := by simp
      by_cases hlast : dns_info.length + 1 = MAX_DNS
      · rw [if_pos hlast, show MAX_DNS - dns_info.length = 1 by omega]
        rfl
      · rw [if_neg hlast, ih (by omega), hlen, List.append_assoc, List.singleton_append,
          show MAX_DNS - dns_info.length = MAX_DNS - (dns_info.length + 1) + 1 by omega,
          List.take_succ_cons]

/-- The file is read to its end when there is room for all it has to keep. -/
theorem readLines_match (dnsTag : List Byte) {dns_match : Nat} {dns_info : List (List Byte)}
    (chunks : List (List Byte))
    (h : dns_info.length + (untagged dnsTag (chunks.map dnsLine)).length < MAX_DNS) :
    (readLines dnsTag dns_match dns_info chunks).1 =
      dns_match + (chunks.map dnsLine).countP (dnsTag <:+: ·) := by
  induction chunks generalizing dns_match dns_info with
  | nil => rfl
  | cons chunk chunks ih =>
    rw [List.map_cons] at h
    rw [readLines, List.map_cons]
    by_cases htag : dnsTag <:+: dnsLine chunk
    · rw [untagged_cons_hit htag] at h
      rw [if_pos htag, ih h, List.countP_cons_of_pos (by simpa using htag)]
      omega
    · rw [untagged_cons_miss htag, List.length_cons] at h
      have hlen : (dns_info ++ [dnsLine chunk]).length = dns_info.length + 1 := by simp
      rw [if_neg htag, if_neg (by omega), ih (by omega),
        List.countP_cons_of_neg (by simpa using htag)]

/-- A line of text: not blank, and short enough to be read in one go. -/
structure IsText (l : List Byte) : Prop where
  nonempty : l ≠ []
  noNewline : 10 ∉ l
  noNul : 0 ∉ l
  short : l.length ≤ 253

theorem dnsLine_text {l : List Byte} (h : IsText l) : dnsLine (l ++ [10]) = l := by
  have hpos := List.length_pos_iff.mpr h.nonempty
  have hcstr : cstr (l ++ [10]) = l ++ [10] :=
    cutAt_eq_self (by simpa using h.noNul)
  rw [dnsLine, hcstr, if_pos ⟨by simp; omega, by simp⟩, List.dropLast_concat]

theorem map_dnsLine_text {ls : List (List Byte)} (h : ∀ l ∈ ls, IsText l) :
    (ls.map (· ++ [10])).map dnsLine = ls := by
  have hsame : ∀ l ∈ ls, (dnsLine ∘ (· ++ [10])) l = id l := fun l hl => dnsLine_text (h l hl)
  rw [List.map_map, List.map_congr_left hsame, List.map_id]

theorem fgetsAll_append {n : Nat} {ls : List (List Byte)}
    (hls : ∀ l ∈ ls, 10 ∉ l ∧ l.length + 2 ≤ n) (s : List Byte) :
    fgetsAll n [] (fileOf ls ++ s) = ls.map (· ++ [10]) ++ fgetsAll n [] s := by
  induction ls with
  | nil => rfl
  | cons l ls ih =>
    obtain ⟨⟨hlf, hlen⟩, hrest⟩ := List.forall_mem_cons.mp hls
    rw [fileOf, List.map_cons, List.flatten_cons, List.append_assoc, List.append_assoc,
      List.singleton_append, fgetsAll_line hlf (by simpa using hlen)]
    exact congrArg (_ :: ·) (ih hrest)

theorem chunks_text {ls : List (List Byte)} (h : ∀ l ∈ ls, IsText l) (s : List Byte) :
    (fgetsAll 255 [] (fileOf ls ++ s)).map dnsLine = ls ++ (fgetsAll 255 [] s).map dnsLine := by
  have hls : ∀ l ∈ ls, 10 ∉ l ∧ l.length + 2 ≤ 255 := fun l hl =>
    ⟨(h l hl).noNewline, by have := (h l hl).short; omega⟩
  rw [fgetsAll_append hls, List.map_append, map_dnsLine_text h]

/-- An update as the programs make it: no second server without a first one, and names that are
short and have none of the bytes that mean something in the file. -/
structure DnsUpdate.Usual (u : DnsUpdate) : Prop where
  both : u.dns1 = none → u.dns2 = none
  version : u.iptype < 10
  ifname_short : u.ifname.length ≤ 15
  ifname : ∀ b ∈ u.ifname, b ∉ [0, 10, 35]
  dns : ∀ s ∈ u.dns1.toList ++ u.dns2.toList, s.length ≤ 63 ∧ ∀ b ∈ s, b ∉ [0, 10, 35]

theorem serverLine_eq (dns dnsTag : List Byte) :
    serverLine dns dnsTag = bytes "nameserver " ++ dns ++ bytes " " ++ dnsTag := by
  rw [serverLine, sprintf_eq (by decide : _ = [bytes "nameserver ", bytes " ", []])]
  simp [weave]

/-- The name in a tag, behind its `#`. -/
def DnsUpdate.tagName (u : DnsUpdate) : List Byte :=
  bytes " IPV" ++ decimal u.iptype ++ bytes " " ++ u.ifname

namespace DnsUpdate.Usual

variable {u v : DnsUpdate}

theorem length_tagName (h : u.Usual) : u.tagName.length ≤ 21 := by
  have hdigit := (length_decimal_le_iff (n := u.iptype) (k := 1) (by decide)).mpr h.version
  have hname := h.ifname_short
  have h4 : (bytes " IPV").length = 4 := by decide
  have h1 : (bytes " ").length = 1 := by decide
  simp only [tagName, List.length_append]
  omega

theorem dnsTag_eq (h : u.Usual) : u.dnsTag = 35 :: u.tagName := by
  have hlen := h.length_tagName
  have hline : sprintf "# IPV%d %s" [decimal u.iptype, u.ifname] = 35 :: u.tagName := by
    rw [sprintf_eq (by decide : _ = [bytes "# IPV", bytes " ", []]), tagName,
      show bytes "# IPV" = 35 :: bytes " IPV" by decide]
    simp [weave]
  rw [dnsTag, snprintf, hline, List.take_of_length_le]
  rw [List.length_cons]
  omega

theorem not_mem_tagName (h : u.Usual) {b : Byte} (hb : b ∈ [0, 10, 35]) : b ∉ u.tagName := by
  have hdigit : b ∉ decimal u.iptype := by
    intro hmem
    have := (isNumeral_decimal u.iptype).2 b hmem
    revert hb this
    simp only [List.mem_cons, List.not_mem_nil, or_false]
    rintro (rfl | rfl | rfl) <;> decide
  have hlit : b ∉ bytes " IPV" ∧ b ∉ bytes " " := by
    simp only [List.mem_cons, List.not_mem_nil, or_false] at hb
    rcases hb with rfl | rfl | rfl <;> decide
  have hname : b ∉ u.ifname := fun hmem => h.ifname b hmem hb
  simp [tagName, hdigit, hlit, hname]

/-- What stands in front of the tag of a server. -/
theorem exists_front (h : u.Usual) {l : List Byte} (hl : l ∈ u.servers) :
    ∃ front, l = front ++ 35 :: u.tagName ∧ front ≠ [] ∧ front.length ≤ 75 ∧
      ∀ b ∈ front, b ∉ [0, 10, 35] := by
  obtain ⟨dns, hdns, rfl⟩ := List.mem_map.mp hl
  obtain ⟨hlen, hbytes⟩ := h.dns dns hdns
  have h11 : (bytes "nameserver ").length = 11 := by decide
  have h1 : (bytes " ").length = 1 := by decide
  have hlit : ∀ b ∈ bytes "nameserver " ++ bytes " ", b ∉ ([0, 10, 35] : List Byte) := by
    decide +kernel
  refine ⟨bytes "nameserver " ++ dns ++ bytes " ", ?_, ?_, ?_, ?_⟩
  · rw [serverLine_eq, h.dnsTag_eq]
  · intro hnil
    have := congrArg List.length hnil
    simp only [List.length_append, List.length_nil] at this
    omega
  · simp only [List.length_append]
    omega
  · intro b hb
    rcases List.mem_append.mp hb with hb | hb
    · rcases List.mem_append.mp hb with hb | hb
      · exact hlit b (List.mem_append_left _ hb)
      · exact hbytes b hb
    · exact hlit b (List.mem_append_right _ hb)

theorem isText_servers (h : u.Usual) {l : List Byte} (hl : l ∈ u.servers) : IsText l := by
  obtain ⟨front, rfl, hne, hlen, hfront⟩ := h.exists_front hl
  have htag := h.length_tagName
  have hno : ∀ b ∈ ([0, 10] : List Byte), b ∉ front ++ 35 :: u.tagName := by
    intro b hb hmem
    have hb' : b ∈ ([0, 10, 35] : List Byte) := List.mem_append_left [35] hb
    rcases List.mem_append.mp hmem with hmem | hmem
    · exact hfront b hmem hb'
    · rcases List.mem_cons.mp hmem with rfl | hmem
      · simp at hb
      · exact h.not_mem_tagName hb' hmem
  refine ⟨by simp, hno 10 (by simp), hno 0 (by simp), ?_⟩
  rw [List.length_append, List.length_cons]
  omega

end DnsUpdate.Usual

/-- A string that begins with a mark, in one that has the mark at one place only. -/
theorem cons_infix_iff {c : Byte} {a b p : List Byte} (hp : c ∉ p) (hb : c ∉ b) :
    c :: a <:+: p ++ c :: b ↔ c :: a <+: c :: b := by
  constructor
  · rintro ⟨s, t, h⟩
    rw [List.append_assoc, List.cons_append] at h
    obtain ⟨-, -, rfl⟩ := (List.append_cons_inj_of_notMem hp hb).mp h.symm
    exact ⟨t, rfl⟩
  · exact fun h => h.isInfix.trans (List.suffix_append _ _).isInfix

/-- The servers of an interface have the tag of another one when its name begins with that one's. -/
theorem hits_servers_iff {u v : DnsUpdate} (hu : u.Usual) (hv : v.Usual) {l : List Byte}
    (hl : l ∈ v.servers) : u.dnsTag <:+: l ↔ u.dnsTag <+: v.dnsTag := by
  obtain ⟨front, rfl, -, -, hfront⟩ := hv.exists_front hl
  rw [hu.dnsTag_eq, hv.dnsTag_eq]
  exact cons_infix_iff (fun h => hfront 35 h (by simp)) (hv.not_mem_tagName (by simp))

/-- The lines after an update, when all of them are copied. -/
abbrev updated (ls : List (List Byte)) (u : DnsUpdate) : List (List Byte) :=
  supersede (fun u l => u.dnsTag <:+: l) DnsUpdate.servers ls u

/-- There is room for the lines to copy. The update that only takes lines out must also come to the
end of the file. -/
def Fits (ls : List (List Byte)) (u : DnsUpdate) : Prop :=
  (untagged u.dnsTag ls).length ≤ MAX_DNS ∧
    (u.dns1 = none → (untagged u.dnsTag ls).length < MAX_DNS)

theorem isText_updated {ls : List (List Byte)} {u : DnsUpdate} (hls : ∀ l ∈ ls, IsText l)
    (hu : u.Usual) : ∀ l ∈ updated ls u, IsText l := by
  intro l hl
  rcases List.mem_append.mp hl with hl | hl
  · exact hu.isText_servers hl
  · exact hls l (List.mem_of_mem_filter hl)

theorem update_text {ls : List (List Byte)} {u : DnsUpdate} {file : Option (List Byte)}
    (hls : ∀ l ∈ ls, IsText l) (hu : u.Usual) (hfit : Fits ls u)
    (hfile : file.getD [] = fileOf ls) :
    (updateResolvConf file u).getD [] = fileOf (updated ls u) := by
  obtain ⟨r, hr⟩ : ∃ r, r = readLines u.dnsTag 0 [] (fgetsAll 255 [] (fileOf ls)) := ⟨_, rfl⟩
  have hlines : (fgetsAll 255 [] (fileOf ls)).map dnsLine = ls := by
    simpa [fgetsAll] using chunks_text hls []
  have hinfo : r.2 = untagged u.dnsTag ls := by
    rw [hr, readLines_info _ (by decide), hlines, List.nil_append]
    exact List.take_of_length_le hfit.1
  rw [updateResolvConf, hfile, ← hr]
  dsimp only
  split
  · rename_i hkeep
    have hcount : ls.countP (u.dnsTag <:+: ·) = 0 := by
      have h := @readLines_match u.dnsTag 0 [] (fgetsAll 255 [] (fileOf ls))
        (by rw [hlines]; simpa using hfit.2 hkeep.1)
      rw [← hr, hkeep.2, hlines] at h
      omega
    have hsame : untagged u.dnsTag ls = ls := List.filter_eq_self.mpr fun l hl => by
      simpa using List.countP_eq_zero.mp hcount l hl
    have hnone : u.servers = [] := by
      rw [DnsUpdate.servers, hkeep.1, hu.both hkeep.1]
      rfl
    rw [hfile]
    exact congrArg fileOf (by rw [updated, supersede, hnone]; exact hsame.symm)
  · rw [hinfo]
    rfl

/-- The servers after a run of updates: those of the updates of which no later one has an
interface whose tag their own tag begins with, the newest in front, and behind them, in their order,
the lines of the old file that have no tag of the run. -/
theorem resolv_conf_after_updates (ls : List (List Byte)) (hls : ∀ l ∈ ls, IsText l)
    (us : List DnsUpdate) (hus : ∀ u ∈ us, u.Usual) (hfit : Along updated Fits ls us)
    (file : Option (List Byte)) (hfile : file.getD [] = fileOf ls) :
    (us.foldl updateResolvConf file).getD [] =
      fileOf ((standing (fun v u => v.dnsTag <+: u.dnsTag) us).flatMap DnsUpdate.servers ++
        ls.filter fun l => ∀ u ∈ us, ¬ u.dnsTag <:+: l) := by
  have hrun : (us.foldl updateResolvConf file).getD [] = fileOf (us.foldl updated ls) := by
    induction us generalizing ls file with
    | nil => exact hfile
    | cons u us ih =>
      have hu := hus u List.mem_cons_self
      have hrest : ∀ v ∈ us, v.Usual := fun v hv => hus v (List.mem_cons_of_mem u hv)
      exact ih (updated ls u) (isText_updated hls hu) hrest hfit.2 _
        (update_text hls hu hfit.1 hfile)
  rw [hrun, foldl_supersede fun u hu v hv l hl => hits_servers_iff (hus u hu) (hus v hv) hl]

/-- The interface `wwan0_1` has its servers in the file, then `wwan0` comes up. -/
def exampleUpdates : List DnsUpdate :=
  [⟨4, bytes "wwan0_1", some (bytes "10.0.0.1"), none⟩,
    ⟨4, bytes "wwan0", some (bytes "10.0.0.2"), some (bytes "10.0.0.3")⟩]

theorem resolv_conf_after_updates_two :
    (exampleUpdates.foldl updateResolvConf (some (bytes "search lan\n"))).getD [] =
      bytes "nameserver 10.0.0.2 # IPV4 wwan0\nnameserver 10.0.0.3 # IPV4 wwan0\nsearch lan\n" := by
  have hls : ∀ l ∈ [bytes "search lan"], IsText l := by
    rintro l hl
    rw [List.mem_singleton.mp hl]
    constructor <;> decide +kernel
  have hus : ∀ u ∈ exampleUpdates, u.Usual := by
    refine List.forall_mem_cons.mpr ⟨?_, List.forall_mem_singleton.mpr ?_⟩
    · exact ⟨by simp, by decide +kernel, by decide +kernel, by decide +kernel, by decide +kernel⟩
    · exact ⟨by simp, by decide +kernel, by decide +kernel, by decide +kernel, by decide +kernel⟩
  have hfit : Along updated Fits [bytes "search lan"] exampleUpdates :=
    ⟨⟨by decide, by simp⟩, ⟨by decide, by simp⟩, trivial⟩
  rw [resolv_conf_after_updates [bytes "search lan"] hls exampleUpdates hus hfit _ (by decide)]
  decide

/-! ## Blank lines -/

/-- The file ends in blank lines behind lines of text, or has at least `2 ^ n` of them in front of
whatever follows. -/
def Crowded (P : List Byte → Prop) (n : Nat) (content : List Byte) : Prop :=
  ∃ kept k rest, content = fileOf (kept ++ List.replicate k []) ++ rest ∧ (∀ l ∈ kept, P l) ∧
    (rest = [] ∨ 2 ^ n ≤ k ∧ k < 32)

theorem fileOf_append (ls ks : List (List Byte)) : fileOf (ls ++ ks) = fileOf ls ++ fileOf ks := by
  rw [fileOf, List.map_append, List.flatten_append]
  rfl

/-- A newline that is kept as a line is written as two of them. -/
theorem fileOf_newlines (k : Nat) :
    fileOf (List.replicate k [10]) = fileOf (List.replicate (2 * k) []) := by
  induction k with
  | zero => rfl
  | succ k ih =>
    rw [show 2 * (k + 1) = 2 * k + 1 + 1 by omega, List.replicate_succ, List.replicate_succ,
      List.replicate_succ]
    exact congrArg (fun s => 10 :: 10 :: s) ih

theorem untagged_newlines {u : DnsUpdate} (hu : u.Usual) (k : Nat) :
    untagged u.dnsTag (List.replicate k [10]) = List.replicate k [10] := by
  refine List.filter_eq_self.mpr fun l hl => ?_
  rw [List.eq_of_mem_replicate hl, hu.dnsTag_eq, decide_eq_true_eq]
  intro hin
  have := hin.subset List.mem_cons_self
  revert this
  decide

section

variable {P : List Byte → Prop} {u : DnsUpdate} {n : Nat}

theorem crowded_mono {content : List Byte} {m : Nat} (hmn : m ≤ n) (h : Crowded P n content) :
    Crowded P m content := by
  obtain ⟨kept, k, rest, hcontent, hkept, hrest⟩ := h
  have hpow : 2 ^ m ≤ 2 ^ n := Nat.pow_le_pow_right (by decide) hmn
  exact ⟨kept, k, rest, hcontent, hkept, hrest.imp_right fun h => ⟨hpow.trans h.1, h.2⟩⟩

/-- What a rewritten file holds when the lines that were read are lines of text, newlines and
others. -/
theorem crowded_written (hu : u.Usual) (hP : ∀ l ∈ u.servers, P l) {kept R : List (List Byte)}
    {k : Nat} (hkept : ∀ l ∈ kept, P l) (hk : R = [] ∨ 2 ^ n ≤ k) :
    Crowded P (n + 1) (fileOf (u.servers ++
      (untagged u.dnsTag (kept ++ List.replicate k [10] ++ R)).take MAX_DNS)) := by
  obtain ⟨ks, hks⟩ : ∃ ks, ks = untagged u.dnsTag kept := ⟨_, rfl⟩
  obtain ⟨others, hothers⟩ : ∃ others, others = untagged u.dnsTag R := ⟨_, rfl⟩
  have hmem : ∀ l ∈ ks, P l := fun l hl => hkept l (List.mem_of_mem_filter (hks ▸ hl))
  rw [untagged_append, untagged_append, untagged_newlines hu, ← hks, ← hothers]
  refine ⟨u.servers ++ ks.take MAX_DNS, 2 * min k (MAX_DNS - ks.length),
    fileOf (others.take (MAX_DNS - (ks.length + k))), ?_, ?_, ?_⟩
  · rw [List.take_append, List.take_append, List.take_replicate, List.length_append,
      List.length_replicate, fileOf_append, fileOf_append, fileOf_append, fileOf_append,
      fileOf_append, fileOf_newlines, Nat.min_comm]
    simp only [List.append_assoc]
  · intro l hl
    rcases List.mem_append.mp hl with hl | hl
    · exact hP l hl
    · exact hmem l (List.mem_of_mem_take hl)
  · by_cases hfull : MAX_DNS ≤ ks.length + k
    · left
      rw [Nat.sub_eq_zero_of_le hfull]
      rfl
    · rcases hk with rfl | hk
      · left
        rw [hothers, show untagged u.dnsTag [] = [] from rfl, List.take_nil]
        rfl
      · right
        have hroom : min k (MAX_DNS - ks.length) = k := by omega
        rw [hroom, Nat.pow_succ]
        have : MAX_DNS = 16 := rfl
        omega

theorem crowded_update (hu : u.Usual) (hP : ∀ l ∈ u.servers, P l) (htext : ∀ l, P l → IsText l)
    {content : List Byte} (h : Crowded P n content) :
    ∃ content', updateResolvConf (some content) u = some content' ∧
      Crowded P (if u.dns1.isSome then n + 1 else n) content' := by
  obtain ⟨kept, k, rest, rfl, hkept, hrest⟩ := h
  have hchunks : (fgetsAll 255 [] (fileOf (kept ++ List.replicate k []) ++ rest)).map dnsLine =
      kept ++ List.replicate k [10] ++ (fgetsAll 255 [] rest).map dnsLine := by
    have hblank : ∀ l ∈ List.replicate k ([] : List Byte), 10 ∉ l ∧ l.length + 2 ≤ 255 := by
      intro l hl
      rw [List.eq_of_mem_replicate hl]
      decide
    rw [fileOf_append, List.append_assoc, chunks_text fun l hl => htext l (hkept l hl),
      fgetsAll_append hblank, List.map_append, List.map_replicate, List.map_replicate,
      List.append_assoc]
    rfl
  have hR : (fgetsAll 255 [] rest).map dnsLine = [] ∨ 2 ^ n ≤ k := by
    rcases hrest with rfl | hrest
    · exact .inl rfl
    · exact .inr hrest.1
  have hwritten := crowded_written hu hP hkept hR
  rw [← hchunks] at hwritten
  rw [updateResolvConf]
  dsimp only [Option.getD_some]
  split
  · rename_i hnone
    refine ⟨_, rfl, ?_⟩
    rw [hnone.1, if_neg (by simp)]
    exact ⟨kept, k, rest, rfl, hkept, hrest⟩
  · rw [readLines_info _ (by decide), List.nil_append]
    refine ⟨_, rfl, ?_⟩
    split
    · exact hwritten
    · exact crowded_mono (Nat.le_succ n) hwritten

theorem crowded_run (htext : ∀ l, P l → IsText l) {us : List DnsUpdate} (hus : ∀ u ∈ us, u.Usual)
    (hP : ∀ u ∈ us, ∀ l ∈ u.servers, P l) {content : List Byte} (h : Crowded P n content) :
    ∃ content', us.foldl updateResolvConf (some content) = some content' ∧
      Crowded P (n + us.countP (·.dns1.isSome)) content' := by
  induction us generalizing n content with
  | nil => exact ⟨content, rfl, h⟩
  | cons u us ih =>
    obtain ⟨content₁, hstep, h₁⟩ := crowded_update (hus u List.mem_cons_self)
      (hP u List.mem_cons_self) htext h
    obtain ⟨content', hrun, h'⟩ := ih (fun v hv => hus v (List.mem_cons_of_mem u hv))
      (fun v hv => hP v (List.mem_cons_of_mem u hv)) h₁
    refine ⟨content', by rw [List.foldl_cons, hstep, hrun], ?_⟩
    rw [List.countP_cons]
    split at h' <;> rename_i hsome
    · rw [if_pos hsome]
      rwa [Nat.add_comm _ 1, ← Nat.add_assoc]
    · rw [if_neg hsome]
      exact h'

end

/-- Blank lines crowd out what stands behind them: whatever followed the first blank line of the
file, after five updates that bring a server there are only lines of text from in front of it,
servers, and blank lines. -/
theorem blank_lines_crowd_out (ls : List (List Byte)) (hls : ∀ l ∈ ls, IsText l) (rest : List Byte)
    (us : List DnsUpdate) (hus : ∀ u ∈ us, u.Usual) (hfive : 5 ≤ us.countP (·.dns1.isSome)) :
    ∃ kept k, us.foldl updateResolvConf (some (fileOf ls ++ 10 :: rest)) =
        some (fileOf kept ++ List.replicate k 10) ∧
      ∀ l ∈ kept, l ∈ ls ∨ ∃ u ∈ us, l ∈ u.servers := by
  have hstart : Crowded (fun l => l ∈ ls ∨ ∃ u ∈ us, l ∈ u.servers) 0 (fileOf ls ++ 10 :: rest) :=
    ⟨ls, 1, rest, by rw [fileOf_append]; simp [fileOf], fun l hl => .inl hl, .inr (by decide)⟩
  have htext : ∀ l, (l ∈ ls ∨ ∃ u ∈ us, l ∈ u.servers) → IsText l := by
    rintro l (hl | ⟨u, hu, hl⟩)
    · exact hls l hl
    · exact (hus u hu).isText_servers hl
  obtain ⟨content, hrun, kept, k, rest', rfl, hkept, hrest⟩ :=
    crowded_run htext hus (fun u hu l hl => .inr ⟨u, hu, hl⟩) hstart
  have hnil : rest' = [] := by
    rcases hrest with h | h
    · exact h
    · have hpow : 2 ^ 5 ≤ 2 ^ (0 + us.countP (·.dns1.isSome)) :=
        Nat.pow_le_pow_right (by decide) (by omega)
      omega
  refine ⟨kept, k, ?_, hkept⟩
  rw [hrun, hnil, List.append_nil, fileOf_append]
  congr 2
  simp [fileOf, List.flatten_replicate_singleton]

/-- The modem reconnects five times; `options` stood behind a blank line. -/
theorem blank_lines_crowd_out_reconnect :
    ∃ kept k, (List.replicate 5 ⟨4, bytes "wwan0", some (bytes "10.0.0.1"), none⟩).foldl
        updateResolvConf (some (fileOf [bytes "search lan"] ++ 10 :: bytes "options rotate\n")) =
          some (fileOf kept ++ List.replicate k 10) ∧
      ∀ l ∈ kept, l ∈ [bytes "search lan"] ∨
        ∃ u ∈ List.replicate 5 (⟨4, bytes "wwan0", some (bytes "10.0.0.1"), none⟩ : DnsUpdate),
          l ∈ u.servers := by
  refine blank_lines_crowd_out [bytes "search lan"] ?_ (bytes "options rotate\n") _ ?_ ?_
  · rintro l hl
    rw [List.mem_singleton.mp hl]
    constructor <;> decide +kernel
  · intro u hu
    rw [List.eq_of_mem_replicate hu]
    exact ⟨by simp, by decide +kernel, by decide +kernel, by decide +kernel, by decide +kernel⟩
  · rw [List.countP_replicate]
    rfl

end BoardTest.Qmi
