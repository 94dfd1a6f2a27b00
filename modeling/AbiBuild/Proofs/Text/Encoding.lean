import AbiBuild.Text.Utf8
import Mathlib.Tactic.SplitIfs

namespace AbiBuild.Text

variable {b c d e : UInt8} {rest : Bytes}

-- The lead `b` announces so many bytes behind it, and `c` may be the first of them.
def Leads (b c : UInt8) (width : Nat) : Prop :=
  ∃ low high, leadOf b = some (width, low, high) ∧ (c < low || high < c) = false

theorem leads_one (first : 0xC2 ≤ b.toNat) (last : b.toNat ≤ 0xDF) (least : 0x80 ≤ c.toNat) (most : c.toNat ≤ 0xBF) :
    Leads b c 1 := by
  simp only [Leads, leadOf, UInt8.le_iff_toNat_le, UInt8.lt_iff_toNat_lt, ← UInt8.toNat_inj, UInt8.toNat_ofNat,
    Bool.or_eq_false_iff, decide_eq_false_iff_not]
  rw [if_pos ⟨first, last⟩]
  exact ⟨_, _, rfl, Nat.not_lt.mpr least, Nat.not_lt.mpr most⟩

-- The narrowed ranges are those of a point below U+0800 and of a surrogate.
theorem leads_two (first : 0xE0 ≤ b.toNat) (last : b.toNat ≤ 0xEF) (least : 0x80 ≤ c.toNat) (most : c.toNat ≤ 0xBF)
    (short : b.toNat = 0xE0 → 0xA0 ≤ c.toNat) (surrogate : b.toNat = 0xED → c.toNat ≤ 0x9F) : Leads b c 2 := by
  simp only [Leads, leadOf, UInt8.le_iff_toNat_le, UInt8.lt_iff_toNat_lt, ← UInt8.toNat_inj, UInt8.toNat_ofNat,
    Bool.or_eq_false_iff, decide_eq_false_iff_not]
  split_ifs with _ isShort isSurrogate
  · omega
  · exact ⟨_, _, rfl, Nat.not_lt.mpr (short isShort), Nat.not_lt.mpr most⟩
  · exact ⟨_, _, rfl, Nat.not_lt.mpr least, Nat.not_lt.mpr (surrogate isSurrogate)⟩
  · exact ⟨_, _, rfl, Nat.not_lt.mpr least, Nat.not_lt.mpr most⟩
  all_goals omega

theorem leads_three (first : 0xF0 ≤ b.toNat) (last : b.toNat ≤ 0xF4) (least : 0x80 ≤ c.toNat) (most : c.toNat ≤ 0xBF)
    (short : b.toNat = 0xF0 → 0x90 ≤ c.toNat) (beyond : b.toNat = 0xF4 → c.toNat ≤ 0x8F) : Leads b c 3 := by
  simp only [Leads, leadOf, UInt8.le_iff_toNat_le, UInt8.lt_iff_toNat_lt, ← UInt8.toNat_inj, UInt8.toNat_ofNat,
    Bool.or_eq_false_iff, decide_eq_false_iff_not]
  split_ifs with _ _ _ _ isShort isBeyond
  all_goals first | omega | skip
  · exact ⟨_, _, rfl, Nat.not_lt.mpr (short isShort), Nat.not_lt.mpr most⟩
  · exact ⟨_, _, rfl, Nat.not_lt.mpr least, Nat.not_lt.mpr (beyond isBeyond)⟩
  · exact ⟨_, _, rfl, Nat.not_lt.mpr least, Nat.not_lt.mpr most⟩

theorem isTail_iff : isTail b = true ↔ 0x80 ≤ b.toNat ∧ b.toNat ≤ 0xBF := by
  simp [isTail, UInt8.le_iff_toNat_le]

theorem not_ascii (big : 0x80 ≤ b.toNat) : ¬ b < 0x80 := by
  rw [UInt8.lt_iff_toNat_lt]
  exact Nat.not_lt.mpr big

theorem decodeFrom_one (position : Nat) (leads : Leads b c 1) (big : 0x80 ≤ b.toNat) :
    decodeFrom position (b :: c :: rest) =
      (decodeFrom (position + 2) rest).map (Char.ofNat (b.toNat % 32 * 64 + tailBits c) :: ·) := by
  obtain ⟨low, high, lead, within⟩ := leads
  rw [decodeFrom, if_neg (not_ascii big), lead]
  simp only [within]
  rfl

theorem decodeFrom_two (position : Nat) (leads : Leads b c 2) (big : 0x80 ≤ b.toNat) (tail : isTail d = true) :
    decodeFrom position (b :: c :: d :: rest) = (decodeFrom (position + 3) rest).map
      (Char.ofNat ((b.toNat % 16 * 64 + tailBits c) * 64 + tailBits d) :: ·) := by
  obtain ⟨low, high, lead, within⟩ := leads
  rw [decodeFrom, if_neg (not_ascii big), lead]
  simp only [within, tail]
  rfl

theorem decodeFrom_three (position : Nat) (leads : Leads b c 3) (big : 0x80 ≤ b.toNat) (tail : isTail d = true)
    (last : isTail e = true) : decodeFrom position (b :: c :: d :: e :: rest) = (decodeFrom (position + 4) rest).map
      (Char.ofNat (((b.toNat % 8 * 64 + tailBits c) * 64 + tailBits d) * 64 + tailBits e) :: ·) := by
  obtain ⟨low, high, lead, within⟩ := leads
  rw [decodeFrom, if_neg (not_ascii big), lead]
  simp only [within, tail, last]
  rfl

theorem byte_toNat {n : Nat} (fits : n < 256) : (UInt8.ofNat n).toNat = n := UInt8.toNat_ofNat_of_lt fits

theorem tail_toNat (n : Nat) : (UInt8.ofNat (n % 64 + 128)).toNat = n % 64 + 128 := byte_toNat (by omega)

theorem tail_isTail (n : Nat) : isTail (UInt8.ofNat (n % 64 + 128)) = true := by
  rw [isTail_iff, tail_toNat]
  omega

theorem tail_tailBits (n : Nat) : tailBits (UInt8.ofNat (n % 64 + 128)) = n % 64 := by
  rw [tailBits, tail_toNat]
  omega

-- One case for each number of bytes that a character takes.
theorem decodeFrom_char (x : Char) (position : Nat) (rest : Bytes) : ∃ next,
    decodeFrom position (String.utf8EncodeChar x ++ rest) = (decodeFrom next rest).map (x :: ·) := by
  have scalar : x.val.toNat < 0xD800 ∨ 0xDFFF < x.val.toNat ∧ x.val.toNat < 0x110000 := x.valid
  have same : ∀ n, n = x.val.toNat → Char.ofNat n = x := by
    rintro n rfl
    exact Char.ofNat_toNat x
  fun_cases String.utf8EncodeChar x with
  | case1 v small =>
    have lead : (UInt8.ofNat v).toNat = v := byte_toNat (by omega)
    have ascii : UInt8.ofNat v < 0x80 := by
      rw [UInt8.lt_iff_toNat_lt, lead]
      exact Nat.lt_succ_of_le small
    refine ⟨position + 1, ?_⟩
    rw [List.singleton_append, decodeFrom, if_pos ascii, lead, same v rfl]
  | case2 v big small =>
    have lead : (UInt8.ofNat (v / 64 % 32 + 192)).toNat = v / 64 + 192 := by rw [byte_toNat (by omega)]; omega
    have next := tail_toNat v
    have leads : Leads (UInt8.ofNat (v / 64 % 32 + 192)) (UInt8.ofNat (v % 64 + 128)) 1 := by
      apply leads_one <;> omega
    refine ⟨position + 2, ?_⟩
    rw [List.cons_append, List.singleton_append, decodeFrom_one position leads (by omega), lead, tail_tailBits,
      same _ (by omega)]
  | case3 v big more small =>
    have lead : (UInt8.ofNat (v / 4096 % 16 + 224)).toNat = v / 4096 + 224 := by rw [byte_toNat (by omega)]; omega
    have next := tail_toNat (v / 64)
    have leads : Leads (UInt8.ofNat (v / 4096 % 16 + 224)) (UInt8.ofNat (v / 64 % 64 + 128)) 2 := by
      apply leads_two <;> omega
    refine ⟨position + 3, ?_⟩
    rw [List.cons_append, List.cons_append, List.singleton_append,
      decodeFrom_two position leads (by omega) (tail_isTail v), lead, tail_tailBits, tail_tailBits, same _ (by omega)]
  | case4 v big more most =>
    have lead : (UInt8.ofNat (v / 262144 % 8 + 240)).toNat = v / 262144 + 240 := by rw [byte_toNat (by omega)]; omega
    have next := tail_toNat (v / 4096)
    have leads : Leads (UInt8.ofNat (v / 262144 % 8 + 240)) (UInt8.ofNat (v / 4096 % 64 + 128)) 3 := by
      apply leads_three <;> omega
    refine ⟨position + 4, ?_⟩
    rw [List.cons_append, List.cons_append, List.cons_append, List.singleton_append,
      decodeFrom_three position leads (by omega) (tail_isTail (v / 64)) (tail_isTail v), lead, tail_tailBits,
      tail_tailBits, tail_tailBits, same _ (by omega)]

theorem decodeFrom_chars (cs : List Char) (position : Nat) :
    decodeFrom position (cs.flatMap String.utf8EncodeChar) = .ok cs := by
  induction cs generalizing position with
  | nil => rfl
  | cons x rest ih =>
    obtain ⟨next, read⟩ := decodeFrom_char x position (rest.flatMap String.utf8EncodeChar)
    rw [List.flatMap_cons, read, ih]
    rfl

theorem toList_loop (bytes : ByteArray) (i : Nat) (gathered : Bytes) :
    ByteArray.toList.loop bytes i gathered = gathered.reverse ++ bytes.data.toList.drop i := by
  fun_induction ByteArray.toList.loop bytes i gathered with
  | case1 i gathered inside ih =>
    have bound : i < bytes.data.toList.length := by simpa using inside
    have item : bytes.get! i = bytes.data.toList[i] := by
      rw [Array.getElem_toList]
      exact getElem!_pos bytes.data i (by simpa using inside)
    rw [ih, List.drop_eq_getElem_cons bound, item]
    simp
  | case2 i gathered outside =>
    have past : bytes.data.toList.length ≤ i := by simpa using outside
    rw [List.drop_eq_nil_of_le past, List.append_nil]

theorem encode_eq (s : String) : encode s = s.toList.flatMap String.utf8EncodeChar := by
  unfold encode ByteArray.toList
  rw [toList_loop, String.toUTF8, ← String.utf8Encode_toList, List.utf8Encode, List.toList_data_toByteArray]
  rfl

theorem readText_encode (s : String) : readText (encode s) = .ok (String.ofList (unifyNewlines s.toList)) := by
  unfold readText decode
  rw [encode_eq, decodeFrom_chars]
  rfl

end AbiBuild.Text
