import BoardTest.Backend.Refusals

/-!
# Chunked bodies

A body in chunks is read back when all of it is in the buffer (`chunks_read_back`), as
`mg_http_write_chunk` and `mg_http_printf_chunk` write it. A request with such a body that comes in
two reads is handled just the same, but for one kind of cut: three bytes or more of the line with
the length of a chunk, and not all of it, have the connection closed (`chunked_in_two_reads`).
-/

namespace BoardTest.Backend

/-- The loop of `mg_lld` in base 16, the lowest digit first. -/
def mgLldHexLoop : Nat → Nat → List Byte
  | 0, _ => []
  | fuel + 1, v =>
    if v = 0 then []
    else (if v % 16 < 10 then UInt8.ofNat (48 + v % 16) else UInt8.ofNat (87 + v % 16)) ::
      mgLldHexLoop fuel (v / 16)

/-- `mg_lld(buf, val, false, true)` -/
def mgLldHex (v : Nat) : List Byte := (mgLldHexLoop 16 v).reverse ++ if v = 0 then [48] else []

def crlf : List Byte := [13, 10]

/-- `mg_http_write_chunk` (`mongoose.c:1993-1997`) -/
def mgHttpWriteChunk (data : List Byte) : List Byte :=
  mgLldHex data.length ++ crlf ++ (data ++ crlf)

/-- `mg_http_vprintf_chunk` (`mongoose.c:1972-1984`), with what the format gives -/
def mgHttpPrintfChunk (data : List Byte) : List Byte :=
  let k := mgLldHex data.length
  (List.replicate (8 - k.length) 48 ++ k).take 8 ++ crlf ++ (data ++ crlf)

/-- A chunk as it may be written. -/
structure Chunk where
  digits : List Byte
  data : List Byte

/-- `mg_str_to_num(str, 16, ..)` -/
def hexNumber (ds : List Byte) : Nat := ds.foldl (fun v c => 16 * v + mgHexDigit c) 0

structure Chunk.Ok (c : Chunk) : Prop where
  digits_ne : c.digits ≠ []
  digits_le : c.digits.length ≤ 8
  hex : ∀ d ∈ c.digits, isx d = true
  value : hexNumber c.digits = c.data.length
  short : c.data.length < 2 ^ 31

def Chunk.text (c : Chunk) : List Byte := c.digits ++ crlf ++ (c.data ++ crlf)

theorem Chunk.length_text (c : Chunk) : c.text.length = c.digits.length + c.data.length + 4 := by
  simp only [text, crlf, List.length_append, List.length_cons, List.length_nil]
  omega

theorem hexDigit_mod {v : Nat} : isx (if v % 16 < 10 then UInt8.ofNat (48 + v % 16)
    else UInt8.ofNat (87 + v % 16)) = true ∧ mgHexDigit (if v % 16 < 10 then
      UInt8.ofNat (48 + v % 16) else UInt8.ofNat (87 + v % 16)) = v % 16 := by
  have hall : ∀ k < 16, isx (if k < 10 then UInt8.ofNat (48 + k) else UInt8.ofNat (87 + k)) = true ∧
      mgHexDigit (if k < 10 then UInt8.ofNat (48 + k) else UInt8.ofNat (87 + k)) = k := by
    decide +kernel
  exact hall _ (Nat.mod_lt v (by decide))

theorem isx_mgLldHexLoop {fuel v : Nat} : ∀ d ∈ mgLldHexLoop fuel v, isx d = true := by
  induction fuel generalizing v with
  | zero => exact fun d hd => by cases hd
  | succ fuel ih =>
    rw [mgLldHexLoop]
    split
    · exact fun d hd => by cases hd
    · exact List.forall_mem_cons.mpr ⟨hexDigit_mod.1, ih⟩

theorem div_sixteen_lt {v k : Nat} (h : v < 16 ^ (k + 1)) : v / 16 < 16 ^ k := by
  rw [Nat.pow_succ'] at h
  exact Nat.div_lt_of_lt_mul h

theorem length_mgLldHexLoop {fuel v k : Nat} (h : v < 16 ^ k) :
    (mgLldHexLoop fuel v).length ≤ k := by
  induction fuel generalizing v k with
  | zero => exact Nat.zero_le k
  | succ fuel ih =>
    rw [mgLldHexLoop]
    split
    · exact Nat.zero_le k
    · cases k with
      | zero => omega
      | succ k => exact Nat.succ_le_succ (ih (div_sixteen_lt h))

theorem hexNumber_mgLldHexLoop {fuel v : Nat} (h : v < 16 ^ fuel) :
    hexNumber (mgLldHexLoop fuel v).reverse = v := by
  induction fuel generalizing v with
  | zero =>
    obtain rfl : v = 0 := by simpa using h
    rfl
  | succ fuel ih =>
    rw [mgLldHexLoop]
    split
    · rename_i hzero
      rw [hzero]
      rfl
    · rw [List.reverse_cons, hexNumber, List.foldl_concat, ← hexNumber, ih (div_sixteen_lt h),
        hexDigit_mod.2]
      exact Nat.div_add_mod v 16

theorem hexNumber_zeros (k : Nat) (ds : List Byte) :
    hexNumber (List.replicate k 48 ++ ds) = hexNumber ds := by
  induction k with
  | zero => rfl
  | succ k ih => exact ih

/-- What `%lx` prints. -/
theorem mgLldHex_digits {v : Nat} (h : v < 2 ^ 31) : mgLldHex v ≠ [] ∧ (mgLldHex v).length ≤ 8 ∧
    (∀ d ∈ mgLldHex v, isx d = true) ∧ hexNumber (mgLldHex v) = v := by
  rw [mgLldHex]
  by_cases hv : v = 0
  · rw [hv]
    decide +kernel
  · rw [if_neg hv, List.append_nil]
    have hsmall : v < 16 ^ 8 := by omega
    have hvalue := @hexNumber_mgLldHexLoop 16 v (lt_of_lt_of_le hsmall (by decide))
    refine ⟨?_, ?_, ?_, hvalue⟩
    · intro hnil
      rw [hnil] at hvalue
      exact hv hvalue.symm
    · rw [List.length_reverse]
      exact length_mgLldHexLoop hsmall
    · intro d hd
      exact isx_mgLldHexLoop d (List.mem_reverse.mp hd)

theorem mgHttpWriteChunk_ok {data : List Byte} (h : data.length < 2 ^ 31) :
    ∃ c : Chunk, c.Ok ∧ c.data = data ∧ c.text = mgHttpWriteChunk data := by
  obtain ⟨hne, hlen, hhex, hvalue⟩ := mgLldHex_digits h
  exact ⟨⟨mgLldHex data.length, data⟩, ⟨hne, hlen, hhex, hvalue, h⟩, rfl, rfl⟩

theorem mgHttpPrintfChunk_ok {data : List Byte} (h : data.length < 2 ^ 31) :
    ∃ c : Chunk, c.Ok ∧ c.data = data ∧ c.text = mgHttpPrintfChunk data := by
  obtain ⟨hne, hlen, hhex, hvalue⟩ := mgLldHex_digits h
  obtain ⟨k, hk⟩ : ∃ k, k = 8 - (mgLldHex data.length).length := ⟨_, rfl⟩
  have htake : (List.replicate k 48 ++ mgLldHex data.length).take 8 =
      List.replicate k 48 ++ mgLldHex data.length := by
    refine List.take_of_length_le ?_
    rw [List.length_append, List.length_replicate]
    omega
  refine ⟨⟨List.replicate k 48 ++ mgLldHex data.length, data⟩, ⟨?_, ?_, ?_, ?_, h⟩, rfl, ?_⟩
  · exact List.append_ne_nil_of_right_ne_nil _ hne
  · rw [List.length_append, List.length_replicate]
    omega
  · intro d hd
    rcases List.mem_append.mp hd with hd | hd
    · rw [List.eq_of_mem_replicate hd]
      decide
    · exact hhex d hd
  · rw [hexNumber_zeros, hvalue]
  · rw [mgHttpPrintfChunk, ← hk, htake, Chunk.text]

/-! ## Reading -/

variable {beyond : Byte}

/-- The digits and the CR of a chunk. -/
theorem skipChunk_cr {c : Chunk} (hc : c.Ok) (r : List Byte) :
    skipChunk beyond (c.digits ++ 13 :: r).length (c.digits ++ 13 :: r) =
      if c.digits.length + r.length < 2 then .more
      else if (r ++ [beyond]).head? ≠ some 10 then .bad
      else if r.length < c.data.length + 3 then .more
      else if r[c.data.length + 1]? ≠ some 13 ∨ r[c.data.length + 2]? ≠ some 10 then .bad
      else .chunk (c.digits.length + 2) c.data.length (c.digits.length + c.data.length + 4) := by
  have hpos := List.length_pos_of_ne_nil hc.digits_ne
  have hle := hc.digits_le
  have hi : (c.digits ++ 13 :: r).takeWhile isx = c.digits := by
    rw [List.takeWhile_append_of_pos hc.hex, List.takeWhile_cons_of_neg (by decide),
      List.append_nil]
  have hlen : (c.digits ++ 13 :: r).length = c.digits.length + r.length + 1 := by
    rw [List.length_append, List.length_cons, Nat.add_assoc]
  have hcr : (c.digits ++ 13 :: r)[c.digits.length]? = some 13 := by
    rw [List.getElem?_append_right (Nat.le_refl _), Nat.sub_self]
    rfl
  have hnext : ((c.digits ++ 13 :: r) ++ [beyond])[c.digits.length + 1]? =
      (r ++ [beyond]).head? := by
    rw [List.append_assoc, List.getElem?_append_right (Nat.le_add_right _ 1),
      Nat.add_sub_cancel_left, List.head?_eq_getElem?]
    rfl
  have hat : ∀ k, (c.digits ++ 13 :: r)[c.digits.length + (k + 1)]? = r[k]? := by
    intro k
    rw [List.getElem?_append_right (Nat.le_add_right _ _), Nat.add_sub_cancel_left]
    rfl
  have hvalue : ((c.digits ++ 13 :: r).take c.digits.length).foldl
      (fun v c => 16 * v + mgHexDigit c) 0 = c.data.length := by
    rw [List.take_left]
    exact hc.value
  have hat₂ := hat (c.data.length + 1)
  have hat₃ := hat (c.data.length + 2)
  have hshort := hc.short
  rw [skipChunk, Int.toNat_natCast, List.take_length, hi, hlen]
  dsimp only
  by_cases hfew : c.digits.length + r.length < 2
  · rw [if_pos (by omega), if_pos hfew]
  rw [if_neg (by omega), if_neg (by omega), if_neg (by omega), if_neg hfew, hvalue]
  by_cases hlf : (r ++ [beyond]).head? ≠ some 10
  · rw [if_pos (.inr (.inr (by rw [hnext]; exact hlf))), if_pos hlf]
  rw [if_neg (by rw [hcr, hnext]; simp only [not_or]; exact ⟨by omega, by simp, hlf⟩), if_neg hlf,
    if_neg (by omega)]
  by_cases hmore : r.length < c.data.length + 3
  · rw [if_pos (by omega), if_pos hmore]
  rw [if_neg (by omega), if_neg hmore, Nat.add_assoc c.digits.length, Nat.add_assoc c.digits.length,
    hat₂, hat₃]
  split
  · rfl
  · congr 1
    omega

/-- A chunk that is there as a whole. -/
theorem skipChunk_text {c : Chunk} (hc : c.Ok) (t : List Byte) :
    skipChunk beyond (c.text ++ t).length (c.text ++ t) =
      .chunk (c.digits.length + 2) c.data.length c.text.length := by
  have htext : c.text ++ t = c.digits ++ 13 :: (10 :: (c.data ++ 13 :: 10 :: t)) := by
    simp [Chunk.text, crlf]
  have hlen : (10 :: (c.data ++ 13 :: 10 :: t) : List Byte).length =
      c.data.length + t.length + 3 := by
    simp only [List.length_cons, List.length_append]
    omega
  have hpos := List.length_pos_of_ne_nil hc.digits_ne
  have hcr : (10 :: (c.data ++ 13 :: 10 :: t) : List Byte)[c.data.length + 1]? = some 13 := by
    simp
  have hlf : (10 :: (c.data ++ 13 :: 10 :: t) : List Byte)[c.data.length + 2]? = some 10 := by
    simp
  rw [htext, skipChunk_cr hc, if_neg (by omega), if_neg (by simp), if_neg (by omega),
    if_neg (by rw [hcr, hlf]; simp), c.length_text]

/-- The first `k` bytes of a chunk end in its first line, and there are three or more. -/
def Chunk.CutInLine (c : Chunk) (k : Nat) (beyond : Byte) : Prop :=
  3 ≤ k ∧ (k ≤ c.digits.length ∨ k = c.digits.length + 1 ∧ beyond ≠ 10)

instance (c : Chunk) (k : Nat) (beyond : Byte) : Decidable (c.CutInLine k beyond) :=
  inferInstanceAs (Decidable (_ ∧ _))

/-- A chunk that is not. -/
theorem skipChunk_cut {c : Chunk} (hc : c.Ok) {k : Nat} (hk : k < c.text.length) :
    skipChunk beyond (c.text.take k).length (c.text.take k) =
      if c.CutInLine k beyond then .bad else .more := by
  have hpos := List.length_pos_of_ne_nil hc.digits_ne
  have hle := hc.digits_le
  have htext : c.text = c.digits ++ 13 :: (10 :: (c.data ++ [13, 10])) := by
    simp [Chunk.text, crlf]
  rw [c.length_text] at hk
  by_cases hdigits : k ≤ c.digits.length
  · have htake : c.text.take k = c.digits.take k := by
      rw [htext, List.take_append_of_le_length hdigits]
    have hi : (c.digits.take k).takeWhile isx = c.digits.take k :=
      List.takeWhile_eq_self_iff.mpr fun d hd => hc.hex d (List.mem_of_mem_take hd)
    have hlen : (c.digits.take k).length = k := by
      rw [List.length_take]
      omega
    rw [htake, skipChunk, Int.toNat_natCast, List.take_length, hi, hlen]
    dsimp only
    by_cases hfew : k < 3
    · rw [if_pos (by omega), if_neg fun h => absurd h.1 (by omega)]
    · rw [if_neg (by omega), if_neg (by omega), if_neg (by omega), if_pos (.inl (by omega)),
        if_pos ⟨by omega, .inl hdigits⟩]
  · obtain ⟨j, rfl⟩ : ∃ j, k = c.digits.length + (j + 1) := ⟨k - c.digits.length - 1, by omega⟩
    have htake : c.text.take (c.digits.length + (j + 1)) =
        c.digits ++ 13 :: ((10 :: (c.data ++ [13, 10]) : List Byte).take j) := by
      rw [htext, List.take_length_add_append, List.take_succ_cons]
    have hlen : ((10 :: (c.data ++ [13, 10]) : List Byte).take j).length = j := by
      rw [List.length_take]
      simp only [List.length_cons, List.length_append, List.length_nil]
      omega
    rw [htake, skipChunk_cr hc, hlen]
    cases j with
    | zero =>
      by_cases hfew : c.digits.length + 0 < 2
      · rw [if_pos hfew, if_neg fun h => absurd h.1 (by omega)]
      · by_cases hlf : beyond = 10
        · have hnot : ¬ c.CutInLine (c.digits.length + (0 + 1)) beyond := by
            rintro ⟨-, h | h⟩
            · omega
            · exact h.2 hlf
          rw [if_neg hfew, if_neg (by simp [hlf]), if_pos (by omega), if_neg hnot]
        · rw [if_neg hfew, if_pos (by simpa using hlf),
            if_pos ⟨by omega, .inr ⟨rfl, hlf⟩⟩]
    | succ j =>
      have hnot : ¬ c.CutInLine (c.digits.length + (j + 1 + 1)) beyond := by
        rintro ⟨-, h | h⟩ <;> omega
      rw [if_neg (by omega), if_neg (by simp), if_pos (by omega), if_neg hnot]

/-- What is behind a chunk. -/
theorem length_behind (u t : List Byte) : ((u ++ t).length : Int) - u.length = t.length := by
  rw [List.length_append]
  push_cast
  omega

/-- A body in chunks is read back, and what follows it is left alone. -/
theorem chunks_read_back {blocks : List Chunk} {last : Chunk} {fuel : Nat} {t : List Byte}
    (hblocks : ∀ b ∈ blocks, b.Ok ∧ b.data ≠ []) (hlast : last.Ok ∧ last.data = [])
    (hfuel : ((blocks ++ [last]).flatMap Chunk.text ++ t).length ≤ fuel) :
    chunks beyond fuel ((blocks ++ [last]).flatMap Chunk.text ++ t).length
        ((blocks ++ [last]).flatMap Chunk.text ++ t) =
      .done (blocks.flatMap Chunk.data) ((blocks ++ [last]).flatMap Chunk.text).length := by
  induction blocks generalizing fuel with
  | nil =>
    have htext : ([] ++ [last]).flatMap Chunk.text = last.text := by simp
    have hlen := last.length_text
    rw [htext] at hfuel ⊢
    rw [List.length_append] at hfuel
    cases fuel with
    | zero => omega
    | succ fuel =>
      rw [chunks, skipChunk_text hlast.1]
      dsimp only
      rw [if_pos (by rw [hlast.2]; rfl)]
      rfl
  | cons b blocks ih =>
    rw [List.forall_mem_cons] at hblocks
    have htext : ((b :: blocks) ++ [last]).flatMap Chunk.text ++ t =
        b.text ++ ((blocks ++ [last]).flatMap Chunk.text ++ t) := by
      simp
    have hlen := b.length_text
    have hdata : ((b.text ++ ((blocks ++ [last]).flatMap Chunk.text ++ t)).drop
        (b.digits.length + 2)).take b.data.length = b.data := by
      have hdrop : b.text ++ ((blocks ++ [last]).flatMap Chunk.text ++ t) =
          (b.digits ++ crlf) ++
            (b.data ++ (crlf ++ ((blocks ++ [last]).flatMap Chunk.text ++ t))) := by
        simp [Chunk.text]
      rw [hdrop, List.drop_left' (by simp [crlf]), List.take_left]
    rw [htext] at hfuel ⊢
    rw [List.length_append] at hfuel
    cases fuel with
    | zero => omega
    | succ fuel =>
      rw [chunks, skipChunk_text hblocks.1.1]
      dsimp only
      rw [if_neg (fun h => hblocks.1.2 (List.eq_nil_of_length_eq_zero h)), List.drop_left,
        length_behind, ih hblocks.2 (by omega)]
      dsimp only
      rw [hdata]
      simp

/-- The two functions that write a chunk. -/
inductive Writer
  | write
  | printf

def Writer.chunk : Writer → List Byte → List Byte
  | .write => mgHttpWriteChunk
  | .printf => mgHttpPrintfChunk

theorem Writer.chunk_ok (w : Writer) {data : List Byte} (h : data.length < 2 ^ 31) :
    ∃ c : Chunk, c.Ok ∧ c.data = data ∧ c.text = w.chunk data := by
  cases w with
  | write => exact mgHttpWriteChunk_ok h
  | printf => exact mgHttpPrintfChunk_ok h

theorem Writer.length_le_chunk (w : Writer) (data : List Byte) :
    data.length ≤ (w.chunk data).length := by
  cases w <;> simp only [Writer.chunk, mgHttpWriteChunk, mgHttpPrintfChunk, List.length_append] <;>
    omega

theorem chunks_of_written {ws : List (Writer × List Byte)} (hne : ∀ b ∈ ws, b.2 ≠ [])
    (hshort : (ws.flatMap fun b => b.1.chunk b.2).length < 2 ^ 31) :
    ∃ blocks : List Chunk, (∀ b ∈ blocks, b.Ok ∧ b.data ≠ []) ∧
      (blocks.flatMap Chunk.text = ws.flatMap fun b => b.1.chunk b.2) ∧
        blocks.flatMap Chunk.data = ws.flatMap Prod.snd := by
  induction ws with
  | nil => exact ⟨[], List.forall_mem_nil _, rfl, rfl⟩
  | cons b ws ih =>
    rw [List.forall_mem_cons] at hne
    rw [List.flatMap_cons, List.length_append] at hshort
    have hdata := b.1.length_le_chunk b.2
    obtain ⟨c, hc, hdata, htext⟩ := b.1.chunk_ok (show b.2.length < 2 ^ 31 by omega)
    obtain ⟨blocks, hblocks, htexts, hdatas⟩ := ih hne.2 (by omega)
    refine ⟨c :: blocks, List.forall_mem_cons.mpr ⟨⟨hc, hdata ▸ hne.1⟩, hblocks⟩, ?_, ?_⟩
    · rw [List.flatMap_cons, List.flatMap_cons, htext, htexts]
    · rw [List.flatMap_cons, List.flatMap_cons, hdata, hdatas]

/-- What the server writes in chunks is read back, up to the empty chunk, when the length of all
that is behind the head has room in an `int`. -/
theorem written_chunks_read_back (ws : List (Writer × List Byte)) (w : Writer) (t : List Byte)
    (hne : ∀ b ∈ ws, b.2 ≠ [])
    (hlen : ((ws.flatMap fun b => b.1.chunk b.2) ++ w.chunk [] ++ t).length < 2 ^ 31) :
    chunks beyond ((ws.flatMap fun b => b.1.chunk b.2) ++ w.chunk [] ++ t).length
        (toSigned ((ws.flatMap fun b => b.1.chunk b.2) ++ w.chunk [] ++ t).length)
        ((ws.flatMap fun b => b.1.chunk b.2) ++ w.chunk [] ++ t) =
      .done (ws.flatMap Prod.snd) ((ws.flatMap fun b => b.1.chunk b.2) ++ w.chunk []).length := by
  obtain ⟨last, hlast, hempty, htext⟩ := @Writer.chunk_ok w [] (by decide)
  rw [toSigned_of_lt (by omega) (by omega)]
  have hshort : ((ws.flatMap fun b => b.1.chunk b.2).length) < 2 ^ 31 := by
    simp only [List.length_append] at hlen
    omega
  obtain ⟨blocks, hblocks, htexts, hdata⟩ := chunks_of_written hne hshort
  have hwhole : (ws.flatMap fun b => b.1.chunk b.2) ++ w.chunk [] =
      (blocks ++ [last]).flatMap Chunk.text := by
    rw [List.flatMap_append, htexts, ← htext, List.flatMap_singleton]
  rw [hwhole, ← hdata]
  exact chunks_read_back hblocks ⟨hlast, hempty⟩ (Nat.le_refl _)

theorem written_chunks_read_back_two :
    chunks 0 (([(Writer.write, bytes "board"), (.printf, bytes " test")].flatMap fun b =>
        b.1.chunk b.2) ++ Writer.printf.chunk [] ++ bytes "GET").length
        (toSigned (([(Writer.write, bytes "board"), (.printf, bytes " test")].flatMap fun b =>
          b.1.chunk b.2) ++ Writer.printf.chunk [] ++ bytes "GET").length)
        (([(Writer.write, bytes "board"), (.printf, bytes " test")].flatMap fun b =>
          b.1.chunk b.2) ++ Writer.printf.chunk [] ++ bytes "GET") =
      .done ([(Writer.write, bytes "board"), (.printf, bytes " test")].flatMap Prod.snd)
        (([(Writer.write, bytes "board"), (.printf, bytes " test")].flatMap fun b =>
          b.1.chunk b.2) ++ Writer.printf.chunk []).length :=
  written_chunks_read_back [(.write, bytes "board"), (.printf, bytes " test")] .printf (bytes "GET")
    (by decide) (by decide +kernel)

/-- A body in chunks that is not there as a whole. -/
theorem chunks_cut {done : List Chunk} {cur : Chunk} {fuel k : Nat}
    (hdone : ∀ b ∈ done, b.Ok ∧ b.data ≠ []) (hcur : cur.Ok) (hk : k < cur.text.length)
    (hfuel : (done.flatMap Chunk.text ++ cur.text.take k).length ≤ fuel) :
    chunks beyond fuel (done.flatMap Chunk.text ++ cur.text.take k).length
        (done.flatMap Chunk.text ++ cur.text.take k) =
      if cur.CutInLine k beyond then .bad else .more := by
  induction done generalizing fuel with
  | nil =>
    rw [List.flatMap_nil, List.nil_append] at hfuel ⊢
    cases fuel with
    | zero =>
      have hzero : k = 0 := by
        rw [List.length_take] at hfuel
        omega
      rw [if_neg fun h => absurd h.1 (by omega)]
      rfl
    | succ fuel =>
      rw [chunks, skipChunk_cut hcur hk]
      split_ifs <;> rfl
  | cons b done ih =>
    rw [List.forall_mem_cons] at hdone
    have hlen := b.length_text
    rw [List.flatMap_cons, List.append_assoc] at hfuel ⊢
    rw [List.length_append] at hfuel
    cases fuel with
    | zero => omega
    | succ fuel =>
      rw [chunks, skipChunk_text hdone.1.1]
      dsimp only
      rw [if_neg (fun h => hdone.1.2 (List.eq_nil_of_length_eq_zero h)), List.drop_left,
        length_behind, ih hdone.2 (by omega)]
      split_ifs <;> rfl

/-! ## Two reads -/

variable {handler : Handler} {c : Conn} {head : List Byte} {hm : HttpMessage}

/-- The head of a request with a body in chunks. -/
def ChunkedHead (head : List Byte) (hm : HttpMessage) : Prop :=
  mgHttpParse head = .message head.length hm ∧
    (hm.header "Transfer-Encoding").any (mgStrcaseeq · (bytes "chunked")) = true

instance (head : List Byte) (hm : HttpMessage) : Decidable (ChunkedHead head hm) :=
  inferInstanceAs (Decidable (_ ∧ _))

theorem round_chunked (h : ChunkedHead head hm) {body : List Byte} (hshort : body.length < 2 ^ 31) :
    round handler false beyond c (head ++ body) =
      match chunks beyond body.length body.length body with
      | .more => .stop c 0 []
      | .bad => .stop { c with is_closing := true } 0 []
      | .done b o =>
        deliver handler (c.moved (head ++ body) head.length b)
          ⟨{ hm with bodyLen := b.length }, b⟩ (head.length + o) [] := by
  obtain ⟨hparse, hte⟩ := h
  rw [Option.any_eq_true] at hte
  obtain ⟨te, hte, hchunked⟩ := hte
  rw [round, message_append hparse]
  dsimp only
  rw [if_neg Bool.false_ne_true, hte]
  dsimp only
  rw [List.drop_left, List.length_append, Nat.add_sub_cancel_left,
    toSigned_of_lt (by omega) (by omega)]
  exact if_pos hchunked

variable {body b : List Byte}

variable (beyond handler) in
/-- The round of `http_cb` over a buffer that has the head and a body in chunks. -/
theorem ChunkedHead.round_recv (h : ChunkedHead head hm) (hrecv : c.recv = head ++ body)
    (hshort : body.length < 2 ^ 31) :
    c.recv ≠ [] ∧ round handler false beyond c c.recv =
      match chunks beyond body.length body.length body with
      | .more => .stop c 0 []
      | .bad => .stop { c with is_closing := true } 0 []
      | .done b o =>
        deliver handler (c.moved c.recv head.length b) ⟨{ hm with bodyLen := b.length }, b⟩
          (head.length + o) [] := by
  have hne := ne_nil_of_message (message_append h.1 body)
  have hround := @round_chunked beyond handler c head hm h body hshort
  rw [← hrecv] at hne hround
  exact ⟨hne, hround⟩

/-- More of the body has to come. -/
theorem httpCb_more (hidle : c.is_resp = false) (h : ChunkedHead head hm)
    (hrecv : c.recv = head ++ body) (hshort : body.length < 2 ^ 31)
    (hbody : chunks beyond body.length body.length body = .more) :
    httpCb handler false beyond c = (c, []) := by
  obtain ⟨hne, hround⟩ := h.round_recv beyond handler hrecv hshort
  rw [hbody] at hround
  rw [httpCb_stop hidle hne hround]
  rfl

theorem httpCb_bad (hidle : c.is_resp = false) (h : ChunkedHead head hm)
    (hrecv : c.recv = head ++ body) (hshort : body.length < 2 ^ 31)
    (hbody : chunks beyond body.length body.length body = .bad) :
    httpCb handler false beyond c = ({ c with is_closing := true }, []) := by
  obtain ⟨hne, hround⟩ := h.round_recv beyond handler hrecv hshort
  rw [hbody] at hround
  rw [httpCb_stop hidle hne hround]
  rfl

theorem skipChunk_le {len : Int} {s : List Byte} {pl dl cl : Nat}
    (h : skipChunk beyond len s = .chunk pl dl cl) : dl ≤ cl := by
  unfold skipChunk at h
  dsimp only at h
  repeat' split at h
  all_goals cases h
  omega

/-- The data of chunks are no longer than the chunks. -/
theorem length_le_of_chunks {fuel o : Nat} {len : Int} {s : List Byte}
    (h : chunks beyond fuel len s = .done b o) : b.length ≤ o := by
  induction fuel generalizing len s b o with
  | zero => cases h
  | succ fuel ih =>
    rw [chunks] at h
    split at h
    · cases h
    · cases h
    · rename_i pl dl cl hskip
      have hle := skipChunk_le hskip
      split at h
      · cases h
        exact Nat.zero_le _
      · split at h
        · rename_i rest o' hrest
          cases h
          have hrest' := ih hrest
          rw [List.length_append, List.length_take]
          omega
        · rename_i hnot
          exact (hnot _ _ h).elim

/-- What is moved stays in its place in the buffer. -/
theorem length_moved (hrecv : c.recv = head ++ body) (hle : b.length ≤ body.length) :
    (c.moved c.recv head.length b).recv.length = c.recv.length := by
  simp only [Conn.moved, overwrite, hrecv, List.length_append, List.length_take, List.length_drop]
  omega

/-- What `http_cb` does with a request in chunks, and nothing behind it. -/
theorem httpCb_chunked (hidle : c.is_resp = false) (h : ChunkedHead head hm)
    (hrecv : c.recv = head ++ body) (hshort : body.length < 2 ^ 31)
    (hbody : chunks beyond body.length body.length body = .done b body.length) :
    (httpCb handler false beyond c).2 =
      dealt handler c.calls [⟨{ hm with bodyLen := b.length }, b⟩] := by
  have hmoved := length_moved hrecv (length_le_of_chunks hbody)
  obtain ⟨hne, hround⟩ := h.round_recv beyond handler hrecv hshort
  rw [hbody] at hround
  dsimp only at hround
  rw [← List.length_append, ← hrecv, deliver] at hround
  dsimp only at hround
  split at hround
  · rw [httpCb_stop hidle hne hround]
    rfl
  · rw [httpCb_again hidle hne hround hmoved]
    rfl

/-- Only the last chunk of all is the empty one. -/
theorem prefix_of_append_cons_eq_concat {done more blocks : List Chunk} {cur last : Chunk}
    (h : done ++ cur :: more = blocks ++ [last]) : done <+: blocks := by
  have hsplit : done <+: blocks ++ [last] := h ▸ List.prefix_append done (cur :: more)
  rcases List.prefix_concat_iff.mp hsplit with hall | hfront
  · have hlen := congrArg List.length h
    rw [hall] at hlen
    simp only [List.length_append, List.length_cons] at hlen
    omega
  · exact hfront

/-- A request in chunks that comes in two reads is handled as if it came in one, unless three
bytes or more of the line with the length of a chunk come with the first read, and not all of it.
Then the connection is closed. -/
theorem chunked_in_two_reads (handler : Handler) {blocks done more : List Chunk} {last cur : Chunk}
    {k : Nat} {beyond beyond' : Byte} (hidle : c.is_resp = false) (hempty : c.recv = [])
    (hhead : ChunkedHead head hm) (hblocks : ∀ b ∈ blocks, b.Ok ∧ b.data ≠ [])
    (hlast : last.Ok ∧ last.data = []) (hcs : done ++ cur :: more = blocks ++ [last])
    (hk : k < cur.text.length)
    (hroom : (head ++ (blocks ++ [last]).flatMap Chunk.text).length ≤ MG_MAX_RECV_SIZE) :
    if cur.CutInLine k beyond then
      ∃ c', c.step handler (.read (head ++ (done.flatMap Chunk.text ++ cur.text.take k)) beyond) =
        (c', []) ∧ c'.is_closing = true
    else
      (react (Conn.step handler) c
        [.read (head ++ (done.flatMap Chunk.text ++ cur.text.take k)) beyond,
          .read (cur.text.drop k ++ more.flatMap Chunk.text) beyond']).2 =
        dealt handler c.calls [⟨{ hm with bodyLen := (blocks.flatMap Chunk.data).length },
          blocks.flatMap Chunk.data⟩] := by
  obtain ⟨p, hp⟩ : ∃ p, p = done.flatMap Chunk.text ++ cur.text.take k := ⟨_, rfl⟩
  obtain ⟨q, hq⟩ : ∃ q, q = cur.text.drop k ++ more.flatMap Chunk.text := ⟨_, rfl⟩
  have hwhole : p ++ q = (blocks ++ [last]).flatMap Chunk.text := by
    rw [← hcs, hp, hq, List.append_assoc, ← List.append_assoc (cur.text.take k),
      List.take_append_drop, List.flatMap_append, List.flatMap_cons]
  have hqpos : 0 < q.length := by
    rw [hq, List.length_append, List.length_drop]
    omega
  have hok : ∀ b ∈ blocks ++ [last], b.Ok := by
    intro b hb
    rcases List.mem_append.mp hb with hb | hb
    · exact (hblocks b hb).1
    · rw [List.mem_singleton.mp hb]
      exact hlast.1
  have hdone : ∀ b ∈ done, b.Ok ∧ b.data ≠ [] := fun b hb =>
    hblocks b ((prefix_of_append_cons_eq_concat hcs).subset hb)
  have hcur : cur.Ok := hok cur (hcs ▸ List.mem_append_right done List.mem_cons_self)
  have hcut := @chunks_cut beyond done cur p.length k hdone hcur hk (by rw [hp])
  rw [← hp] at hcut ⊢
  rw [← hq]
  rw [← hwhole, List.length_append, List.length_append] at hroom
  have hsmall : p.length + q.length < 2 ^ 31 := by
    have hmax : MG_MAX_RECV_SIZE < 2 ^ 31 := by decide
    omega
  have hread : c.step handler (.read (head ++ p) beyond) =
      httpCb handler false beyond { c with recv := head ++ p } := by
    rw [Conn.step, if_neg (by rw [hempty]; decide), hempty, List.nil_append]
  split
  · rename_i hbad
    rw [if_pos hbad] at hcut
    have hfirst := @httpCb_bad beyond handler { c with recv := head ++ p } head hm p hidle hhead
      rfl (by omega) hcut
    rw [hread, hfirst]
    exact ⟨_, rfl, rfl⟩
  · rename_i hgood
    rw [if_neg hgood] at hcut
    have hfirst := @httpCb_more beyond handler { c with recv := head ++ p } head hm p hidle hhead
      rfl (by omega) hcut
    have hfull : ¬ (head ++ p).length ≥ MG_MAX_RECV_SIZE := by
      rw [List.length_append]
      omega
    have hsecond : ({ c with recv := head ++ p } : Conn).step handler (.read q beyond') =
        httpCb handler false beyond' { c with recv := head ++ (p ++ q) } := by
      rw [Conn.step, if_neg hfull, List.append_assoc]
    have hback := @chunks_read_back beyond' blocks last (p ++ q).length [] hblocks hlast
      (by rw [List.append_nil, hwhole])
    rw [List.append_nil, ← hwhole] at hback
    have hdeeds := @httpCb_chunked beyond' handler { c with recv := head ++ (p ++ q) } head hm
      (p ++ q) _ hidle hhead rfl (by rw [List.length_append]; exact hsmall) hback
    rw [react_cons, react_cons, react_nil, hread, hfirst, hsecond, List.nil_append,
      List.append_nil, hdeeds]

/-- The first read ends behind the three digits. -/
theorem chunked_in_two_reads_cut :
    if Chunk.CutInLine ⟨bytes "003", bytes "abc"⟩ 3 0 then
      ∃ c', Conn.accepted.step fileForRoot
        (.read (bytes "POST /a HTTP/1.1\r\nTransfer-Encoding: chunked\r\n\r\n" ++
          (([] : List Chunk).flatMap Chunk.text ++
            (Chunk.text ⟨bytes "003", bytes "abc"⟩).take 3)) 0) = (c', []) ∧ c'.is_closing = true
    else
      (react (Conn.step fileForRoot) .accepted
        [.read (bytes "POST /a HTTP/1.1\r\nTransfer-Encoding: chunked\r\n\r\n" ++
          (([] : List Chunk).flatMap Chunk.text ++
            (Chunk.text ⟨bytes "003", bytes "abc"⟩).take 3)) 0,
          .read ((Chunk.text ⟨bytes "003", bytes "abc"⟩).drop 3 ++
            ([⟨bytes "0", []⟩] : List Chunk).flatMap Chunk.text) 0]).2 =
        dealt fileForRoot 0 [⟨⟨bytes "POST", bytes "/a", [], bytes "HTTP/1.1",
          [(bytes "Transfer-Encoding", bytes "chunked")],
          (([⟨bytes "003", bytes "abc"⟩] : List Chunk).flatMap Chunk.data).length⟩,
            ([⟨bytes "003", bytes "abc"⟩] : List Chunk).flatMap Chunk.data⟩] :=
  @chunked_in_two_reads .accepted (bytes "POST /a HTTP/1.1\r\nTransfer-Encoding: chunked\r\n\r\n")
    ⟨bytes "POST", bytes "/a", [], bytes "HTTP/1.1",
      [(bytes "Transfer-Encoding", bytes "chunked")], 2 ^ 64 - 1⟩ fileForRoot
    [⟨bytes "003", bytes "abc"⟩] [] [⟨bytes "0", []⟩] ⟨bytes "0", []⟩
    ⟨bytes "003", bytes "abc"⟩ 3 0 0 rfl rfl (by decide +kernel)
    (by
      intro b hb
      rw [List.mem_singleton.mp hb]
      exact ⟨by constructor <;> decide +kernel, by decide⟩)
    ⟨by constructor <;> decide +kernel, rfl⟩ rfl (by decide +kernel) (by decide +kernel)

end BoardTest.Backend
