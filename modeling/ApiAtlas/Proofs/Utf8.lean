import ApiAtlas.Path
import Mathlib.Algebra.Group.Nat.Defs
import Mathlib.Data.Nat.Basic
import Mathlib.Tactic.Common

/-!
Text and bytes. Every character is read back from the bytes it is written in, whatever follows, so
texts with the same bytes are the same text; an ASCII byte never stands inside another character.
The other way round, a text is written in the very bytes it was read from. A slash is read on its
own in any bytes, whatever is broken around it.
-/
namespace ApiAtlas.Utf8

theorem toNat_ofNat_of_lt {n : Nat} (h : n < 256) : (UInt8.ofNat n).toNat = n := by
  rw [UInt8.toNat_ofNat']
  exact Nat.mod_eq_of_lt h

theorem piecesFrom_next (owed : Nat) (least greatest : UInt8) (value seen m : Nat) (bs : Bytes)
    (hm : m < 64) (hleast : least.toNat ≤ 0x80 + m) (hgreatest : 0x80 + m ≤ greatest.toNat) :
    piecesFrom (some ⟨owed, least, greatest, value, seen⟩) (UInt8.ofNat (0x80 + m) :: bs) =
      if owed = 1 then .char (.ofNat (value * 64 + m)) :: piecesFrom none bs
      else piecesFrom (some ⟨owed - 1, 0x80, 0xBF, value * 64 + m, seen + 1⟩) bs := by
  have hbyte : (UInt8.ofNat (0x80 + m)).toNat = 0x80 + m := toNat_ofNat_of_lt (by omega)
  have hbounds : least ≤ UInt8.ofNat (0x80 + m) ∧ UInt8.ofNat (0x80 + m) ≤ greatest := by
    rw [UInt8.le_iff_toNat_le, UInt8.le_iff_toNat_le, hbyte]
    exact ⟨hleast, hgreatest⟩
  rw [piecesFrom, if_pos hbounds, hbyte, Nat.add_sub_cancel_left]

theorem piecesFrom_tail (owed value seen m : Nat) (bs : Bytes) (hm : m < 64) :
    piecesFrom (some ⟨owed, 0x80, 0xBF, value, seen⟩) (UInt8.ofNat (0x80 + m) :: bs) =
      if owed = 1 then .char (.ofNat (value * 64 + m)) :: piecesFrom none bs
      else piecesFrom (some ⟨owed - 1, 0x80, 0xBF, value * 64 + m, seen + 1⟩) bs := by
  apply piecesFrom_next _ _ _ _ _ _ _ hm
  · exact Nat.le_add_right 0x80 m
  · change 0x80 + m ≤ 0xBF
    omega

theorem start_of_lt {n : Nat} (h : n < 0x80) : start (.ofNat n) = .inl (.char (.ofNat n)) := by
  unfold start
  simp only [toNat_ofNat_of_lt (show n < 256 by omega), h, ↓reduceIte]

theorem start_two {m : Nat} (hlow : 2 ≤ m) (hhigh : m < 0x20) :
    start (.ofNat (0xC0 + m)) = .inr ⟨1, 0x80, 0xBF, m, 1⟩ := by
  unfold start
  simp only [toNat_ofNat_of_lt (show 0xC0 + m < 256 by omega)]
  rw [if_neg (by omega), if_neg (by omega), if_pos (by omega), Nat.add_sub_cancel_left]

theorem start_three {m : Nat} (h : m < 0x10) :
    start (.ofNat (0xE0 + m)) =
      .inr ⟨2, if m = 0 then 0xA0 else 0x80, if m = 0xD then 0x9F else 0xBF, m, 1⟩ := by
  unfold start
  simp only [toNat_ofNat_of_lt (show 0xE0 + m < 256 by omega)]
  rw [if_neg (by omega), if_neg (by omega), if_neg (by omega)]
  by_cases hzero : m = 0
  · subst hzero
    rfl
  by_cases hd : m = 0xD
  · subst hd
    rfl
  rw [if_neg (by omega), if_neg (by omega), if_pos (by omega), if_neg hzero, if_neg hd,
    Nat.add_sub_cancel_left]

theorem start_four {m : Nat} (h : m < 5) :
    start (.ofNat (0xF0 + m)) =
      .inr ⟨3, if m = 0 then 0x90 else 0x80, if m = 4 then 0x8F else 0xBF, m, 1⟩ := by
  unfold start
  simp only [toNat_ofNat_of_lt (show 0xF0 + m < 256 by omega)]
  rw [if_neg (by omega), if_neg (by omega), if_neg (by omega), if_neg (by omega),
    if_neg (by omega), if_neg (by omega)]
  by_cases hzero : m = 0
  · subst hzero
    rfl
  by_cases hfour : m = 4
  · subst hfour
    rfl
  rw [if_neg (by omega), if_pos (by omega), if_neg hzero, if_neg hfour, Nat.add_sub_cancel_left]

theorem toNat_valid (c : Char) : c.toNat < 0xD800 ∨ (0xDFFF < c.toNat ∧ c.toNat < 0x110000) :=
  c.valid

@[simp] theorem piecesFrom_encodeChar (c : Char) (rest : Bytes) :
    piecesFrom none (encodeChar c ++ rest) = .char c :: piecesFrom none rest := by
  have hvalid := toNat_valid c
  have hchar : Char.ofNat c.toNat = c := Char.ofNat_toNat c
  unfold encodeChar
  simp only
  generalize hn : c.toNat = n at hvalid hchar
  -- One case a length; in the last two the second byte has bounds of its own.
  split_ifs with h1 h2 h3
  · rw [List.cons_append, List.nil_append, piecesFrom, start_of_lt h1, hchar]
  · simp only [List.cons_append, List.nil_append]
    rw [piecesFrom, start_two (by omega) (by omega)]
    simp only
    rw [piecesFrom_tail _ _ _ _ _ (by omega), if_pos rfl, Nat.div_add_mod', hchar]
  · simp only [List.cons_append, List.nil_append]
    rw [piecesFrom, start_three (by omega)]
    simp only
    rw [piecesFrom_next, if_neg (show ¬ 2 = 1 by omega), piecesFrom_tail _ _ _ _ _ (by omega),
      if_pos (show 2 - 1 = 1 from rfl)]
    · rw [show (n / 4096 * 64 + n / 64 % 64) * 64 + n % 64 = n by omega, hchar]
    · omega
    · split_ifs
      · change 0xA0 ≤ _
        omega
      · exact Nat.le_add_right 0x80 _
    · split_ifs
      · change _ ≤ 0x9F
        omega
      · change _ ≤ 0xBF
        omega
  · simp only [List.cons_append, List.nil_append]
    rw [piecesFrom, start_four (by omega)]
    simp only
    rw [piecesFrom_next, if_neg (show ¬ 3 = 1 by omega), piecesFrom_tail _ _ _ _ _ (by omega),
      if_neg (show ¬ 3 - 1 = 1 by omega), piecesFrom_tail _ _ _ _ _ (by omega),
      if_pos (show 3 - 1 - 1 = 1 from rfl)]
    · rw [show ((n / 262144 * 64 + n / 4096 % 64) * 64 + n / 64 % 64) * 64 + n % 64 = n by omega,
        hchar]
    · omega
    · split_ifs
      · change 0x90 ≤ _
        omega
      · exact Nat.le_add_right 0x80 _
    · split_ifs
      · change _ ≤ 0x8F
        omega
      · change _ ≤ 0xBF
        omega

@[simp] theorem encode_nil : encode [] = [] := rfl

@[simp] theorem encode_cons (c : Char) (s : List Char) :
    encode (c :: s) = encodeChar c ++ encode s := rfl

@[simp] theorem encode_append (s t : List Char) : encode (s ++ t) = encode s ++ encode t := by
  unfold encode
  exact List.flatMap_append

@[simp] theorem pieces_encode (s : List Char) : pieces (encode s) = s.map .char := by
  unfold pieces
  induction s with
  | nil => rfl
  | cons c s ih => rw [encode_cons, piecesFrom_encodeChar, ih, List.map_cons]

@[simp] theorem charsOf_map_char (s : List Char) : charsOf (s.map .char) = some s := by
  induction s with
  | nil => rfl
  | cons c s ih => rw [List.map_cons, charsOf, ih, Option.map_some]

theorem eq_map_char_of_charsOf (ps : List Piece) (s : List Char) (h : charsOf ps = some s) :
    ps = s.map .char := by
  induction ps generalizing s with
  | nil =>
    have hs : s = [] := by simpa [charsOf] using h.symm
    rw [hs, List.map_nil]
  | cons p ps ih =>
    cases p with
    | char c =>
      obtain ⟨rest, hrest, hs⟩ := Option.map_eq_some_iff.mp h
      rw [← hs, ih rest hrest, List.map_cons]
    | broken n => simp [charsOf] at h
    | cut n => simp [charsOf] at h

theorem decodeLossy_of_decode (bs : Bytes) (s : List Char) (h : decode bs = some s) :
    decodeLossy bs = s := by
  unfold decodeLossy
  rw [eq_map_char_of_charsOf _ s h, List.map_map]
  simp [Function.comp_def]

theorem faultFrom_eq_none_iff (offset : Nat) (ps : List Piece) :
    faultFrom offset ps = none ↔ (charsOf ps).isSome := by
  induction ps generalizing offset with
  | nil => simp [faultFrom, charsOf]
  | cons p ps ih => cases p <;> simp [faultFrom, charsOf, ih]

theorem fault_eq_none_iff (bs : Bytes) : fault bs = none ↔ (decode bs).isSome :=
  faultFrom_eq_none_iff 0 (pieces bs)

@[simp] theorem decode_encode (s : List Char) : decode (encode s) = some s := by
  unfold decode
  rw [pieces_encode, charsOf_map_char]

theorem encode_injective : Function.Injective encode := by
  intro s t h
  have hdecode := congrArg decode h
  rw [decode_encode, decode_encode] at hdecode
  exact Option.some.inj hdecode

theorem mem_encodeChar {b : UInt8} {c : Char} (hb : b.toNat < 0x80) :
    b ∈ encodeChar c ↔ c.toNat = b.toNat := by
  have hvalid := toNat_valid c
  unfold encodeChar
  simp only
  generalize c.toNat = n at hvalid
  have hne (m : Nat) (hlow : 0x80 ≤ m) (hhigh : m < 256) : b ≠ UInt8.ofNat m := by
    intro h
    rw [h, toNat_ofNat_of_lt hhigh] at hb
    omega
  split_ifs with h1 h2 h3
  · rw [List.mem_singleton, ← UInt8.toNat_inj, toNat_ofNat_of_lt (by omega), eq_comm]
  · simp only [List.mem_cons, List.not_mem_nil, hne _ (show 0x80 ≤ 0xC0 + n / 64 by omega) (by omega),
      hne _ (show 0x80 ≤ 0x80 + n % 64 by omega) (by omega), or_self, false_iff]
    omega
  · simp only [List.mem_cons, List.not_mem_nil, hne _ (show 0x80 ≤ 0xE0 + n / 4096 by omega) (by omega),
      hne _ (show 0x80 ≤ 0x80 + n / 64 % 64 by omega) (by omega),
      hne _ (show 0x80 ≤ 0x80 + n % 64 by omega) (by omega), or_self, false_iff]
    omega
  · simp only [List.mem_cons, List.not_mem_nil, hne _ (show 0x80 ≤ 0xF0 + n / 262144 by omega) (by omega),
      hne _ (show 0x80 ≤ 0x80 + n / 4096 % 64 by omega) (by omega),
      hne _ (show 0x80 ≤ 0x80 + n / 64 % 64 by omega) (by omega),
      hne _ (show 0x80 ≤ 0x80 + n % 64 by omega) (by omega), or_self, false_iff]
    omega

/-- Whether the character under way cannot be one that takes a single byte. -/
structure Pending.IsLong (p : Pending) : Prop where
  owed : 0 < p.owed
  value : 0x80 ≤ p.value * 64 ^ p.owed + (p.least.toNat - 0x80) * 64 ^ (p.owed - 1)

theorem isLong_of_start {b : UInt8} {p : Pending} (h : start b = .inr p) : p.IsLong := by
  have hall : ∀ n < 256, ∀ p ∈ (start (.ofNat n)).getRight?,
      0 < p.owed ∧ 0x80 ≤ p.value * 64 ^ p.owed + (p.least.toNat - 0x80) * 64 ^ (p.owed - 1) := by
    decide +kernel
  have hp := hall b.toNat b.toNat_lt p (by rw [UInt8.ofNat_toNat, h]; rfl)
  exact ⟨hp.1, hp.2⟩

theorem start_eq_char {b : UInt8} {c : Char} (h : start b = .inl (.char c)) :
    c = .ofNat b.toNat := by
  unfold start at h
  simp only at h
  split_ifs at h <;> cases h
  rfl

def Piece.IsAscii (piece : Piece) : Prop := ∃ c, piece = .char c ∧ 0 < c.toNat ∧ c.toNat < 0x80

theorem toNat_ofNat_cases (n : Nat) : (Char.ofNat n).toNat = n ∨ (Char.ofNat n).toNat = 0 := by
  unfold Char.ofNat
  by_cases h : n.isValidChar
  · rw [dif_pos h]
    exact .inl rfl
  · rw [dif_neg h]
    exact .inr rfl

theorem not_isAscii_piecesFrom {p : Pending} (h : p.IsLong) (bs : Bytes) :
    ∃ piece ∈ piecesFrom (some p) bs, ¬ piece.IsAscii := by
  induction bs generalizing p with
  | nil =>
    refine ⟨.cut p.seen, by simp [piecesFrom], ?_⟩
    rintro ⟨c, hc, -⟩
    cases hc
  | cons b bs ih =>
    rw [piecesFrom]
    split
    · rename_i hbounds
      have hleast : p.least.toNat ≤ b.toNat := hbounds.1
      have hvalue := h.value
      by_cases howed : p.owed = 1
      · rw [if_pos howed]
        refine ⟨_, List.mem_cons_self, ?_⟩
        rintro ⟨c, hc, hpos, hlt⟩
        have hc := Piece.char.inj hc
        rw [howed] at hvalue
        rcases toNat_ofNat_cases (p.value * 64 + (b.toNat - 0x80)) with hn | hn
        · rw [hc] at hn
          omega
        · rw [hc] at hn
          omega
      · rw [if_neg howed]
        apply ih
        have hpos := h.owed
        have hpower : 64 ^ p.owed = 64 * 64 ^ (p.owed - 1) := by
          rw [← Nat.pow_succ', Nat.succ_eq_add_one, Nat.sub_add_cancel hpos]
        have hnext : (p.least.toNat - 0x80) * 64 ^ (p.owed - 1) ≤
            (b.toNat - 0x80) * 64 ^ (p.owed - 1) :=
          Nat.mul_le_mul_right _ (Nat.sub_le_sub_right hleast _)
        refine ⟨by simp only; omega, ?_⟩
        rw [hpower, ← Nat.mul_assoc] at hvalue
        simp only [Nat.add_mul]
        omega
    · refine ⟨.broken p.seen, List.mem_cons_self, ?_⟩
      rintro ⟨c, hc, -⟩
      cases hc

theorem mem_of_isAscii (bs : Bytes) (h : ∀ piece ∈ pieces bs, piece.IsAscii) (b : UInt8)
    (hb : b ∈ bs) : .char (.ofNat b.toNat) ∈ pieces bs := by
  unfold pieces at h ⊢
  induction bs with
  | nil => cases hb
  | cons a bs ih =>
    rw [piecesFrom] at h ⊢
    cases hstart : start a with
    | inl piece =>
      simp only [hstart] at h ⊢
      rcases List.mem_cons.mp hb with rfl | hb
      · obtain ⟨c, rfl, -⟩ := h piece List.mem_cons_self
        rw [start_eq_char hstart]
        exact List.mem_cons_self
      · apply List.mem_cons_of_mem
        exact ih (fun piece hpiece => h piece (List.mem_cons_of_mem _ hpiece)) hb
    | inr p =>
      simp only [hstart] at h
      obtain ⟨piece, hpiece, hnot⟩ := not_isAscii_piecesFrom (isLong_of_start hstart) bs
      exact absurd (h piece hpiece) hnot

theorem toNat_ofNat_of_valid {n : Nat} (h : n < 0xD800 ∨ 0xDFFF < n ∧ n < 0x110000) :
    (Char.ofNat n).toNat = n := by
  have hvalid : n.isValidChar := h
  unfold Char.ofNat
  rw [dif_pos hvalid]
  rfl

theorem piecesFrom_some_eq_char {p : Pending} {bs : Bytes} {c : Char} {ps : List Piece}
    (h : piecesFrom (some p) bs = .char c :: ps) :
    ∃ b rest, bs = b :: rest ∧ p.least.toNat ≤ b.toNat ∧ b.toNat ≤ p.greatest.toNat ∧
      if p.owed = 1 then c = .ofNat (p.value * 64 + (b.toNat - 0x80)) ∧ ps = piecesFrom none rest
      else piecesFrom (some ⟨p.owed - 1, 0x80, 0xBF, p.value * 64 + (b.toNat - 0x80), p.seen + 1⟩)
        rest = .char c :: ps := by
  cases bs with
  | nil => simp [piecesFrom] at h
  | cons b rest =>
    rw [piecesFrom] at h
    split at h
    · rename_i hbounds
      refine ⟨b, rest, rfl, hbounds.1, hbounds.2, ?_⟩
      split
      · rename_i howed
        rw [if_pos howed] at h
        obtain ⟨hc, hps⟩ := List.cons.inj h
        exact ⟨(Piece.char.inj hc).symm, hps.symm⟩
      · rename_i howed
        rw [if_neg howed] at h
        exact h
    · cases h

theorem start_cases {b : UInt8} {p : Pending} (h : start b = .inr p) :
    (p = ⟨1, 0x80, 0xBF, b.toNat - 0xC0, 1⟩ ∧ 0xC2 ≤ b.toNat ∧ b.toNat < 0xE0) ∨
    (p = ⟨2, p.least, p.greatest, b.toNat - 0xE0, 1⟩ ∧ 0xE0 ≤ b.toNat ∧ b.toNat < 0xF0 ∧
      0x80 ≤ p.least.toNat ∧ p.greatest.toNat ≤ 0xBF ∧ (b.toNat = 0xE0 → 0xA0 ≤ p.least.toNat) ∧
      (b.toNat = 0xED → p.greatest.toNat ≤ 0x9F)) ∨
    (p = ⟨3, p.least, p.greatest, b.toNat - 0xF0, 1⟩ ∧ 0xF0 ≤ b.toNat ∧ b.toNat ≤ 0xF4 ∧
      0x80 ≤ p.least.toNat ∧ p.greatest.toNat ≤ 0xBF ∧ (b.toNat = 0xF0 → 0x90 ≤ p.least.toNat) ∧
      (b.toNat = 0xF4 → p.greatest.toNat ≤ 0x8F)) := by
  unfold start at h
  simp only at h
  split_ifs at h <;> cases h <;> simp <;> omega

theorem lt_of_start {b : UInt8} {c : Char} (h : start b = .inl (.char c)) : b.toNat < 0x80 := by
  unfold start at h
  simp only at h
  split_ifs at h <;> first | assumption | cases h

section

variable {l m n k : Nat}

theorem encodeChar_one (h : n < 0x80) : encodeChar (.ofNat n) = [.ofNat n] := by
  unfold encodeChar
  simp only
  rw [toNat_ofNat_of_valid (by omega), if_pos h]

theorem encodeChar_two (hlow : 2 ≤ m) (hhigh : m < 0x20) (hn : n < 64) :
    encodeChar (.ofNat (m * 64 + n)) = [.ofNat (0xC0 + m), .ofNat (0x80 + n)] := by
  unfold encodeChar
  simp only
  rw [toNat_ofNat_of_valid (by omega), if_neg (by omega), if_pos (by omega),
    show (m * 64 + n) / 64 = m by omega, show (m * 64 + n) % 64 = n by omega]

theorem encodeChar_three (hm : m < 0x10) (hn : n < 64) (hk : k < 64) (hlow : m = 0 → 0x20 ≤ n)
    (hhigh : m = 0xD → n < 0x20) :
    encodeChar (.ofNat ((m * 64 + n) * 64 + k)) =
      [.ofNat (0xE0 + m), .ofNat (0x80 + n), .ofNat (0x80 + k)] := by
  unfold encodeChar
  simp only
  rw [toNat_ofNat_of_valid (by omega), if_neg (by omega), if_neg (by omega), if_pos (by omega),
    show ((m * 64 + n) * 64 + k) / 4096 = m by omega,
    show ((m * 64 + n) * 64 + k) / 64 % 64 = n by omega,
    show ((m * 64 + n) * 64 + k) % 64 = k by omega]

theorem encodeChar_four (hm : m < 5) (hn : n < 64) (hk : k < 64) (hl : l < 64)
    (hlow : m = 0 → 0x10 ≤ n) (hhigh : m = 4 → n < 0x10) :
    encodeChar (.ofNat (((m * 64 + n) * 64 + k) * 64 + l)) =
      [.ofNat (0xF0 + m), .ofNat (0x80 + n), .ofNat (0x80 + k), .ofNat (0x80 + l)] := by
  unfold encodeChar
  simp only
  rw [toNat_ofNat_of_valid (by omega), if_neg (by omega), if_neg (by omega), if_neg (by omega),
    show (((m * 64 + n) * 64 + k) * 64 + l) / 262144 = m by omega,
    show (((m * 64 + n) * 64 + k) * 64 + l) / 4096 % 64 = n by omega,
    show (((m * 64 + n) * 64 + k) * 64 + l) / 64 % 64 = k by omega,
    show (((m * 64 + n) * 64 + k) * 64 + l) % 64 = l by omega]

end

theorem ofNat_add_sub {b : UInt8} {n : Nat} (h : n ≤ b.toNat) :
    UInt8.ofNat (n + (b.toNat - n)) = b := by
  rw [Nat.add_sub_cancel' h, UInt8.ofNat_toNat]

theorem piecesFrom_eq_char {bs : Bytes} {c : Char} {ps : List Piece}
    (h : piecesFrom none bs = .char c :: ps) :
    ∃ rest, bs = encodeChar c ++ rest ∧ ps = piecesFrom none rest := by
  cases bs with
  | nil => cases h
  | cons b bs =>
    rw [piecesFrom] at h
    cases hstart : start b with
    | inl piece =>
      simp only [hstart, List.cons.injEq] at h
      obtain ⟨rfl, rfl⟩ := h
      refine ⟨bs, ?_, rfl⟩
      rw [start_eq_char hstart, encodeChar_one (lt_of_start hstart), UInt8.ofNat_toNat,
        List.singleton_append]
    | inr p =>
      simp only [hstart] at h
      obtain ⟨b₁, bs, rfl, hleast, hgreatest, h⟩ := piecesFrom_some_eq_char h
      rcases start_cases hstart with ⟨hp, hlow, hhigh⟩ |
        ⟨hp, hlow, hhigh, hmin, hmax, hfirst, hlast⟩ | ⟨hp, hlow, hhigh, hmin, hmax, hfirst, hlast⟩
      · rw [hp] at h hleast hgreatest
        simp only [if_true, UInt8.reduceToNat] at h hleast hgreatest
        obtain ⟨hc, rfl⟩ := h
        refine ⟨bs, ?_, rfl⟩
        rw [hc, encodeChar_two (by omega) (by omega) (by omega), ofNat_add_sub (by omega),
          ofNat_add_sub hleast]
        rfl
      · rw [hp] at h
        simp only [Nat.reduceEqDiff, if_false] at h
        obtain ⟨b₂, bs, rfl, hleast₂, hgreatest₂, h⟩ := piecesFrom_some_eq_char h
        simp only [Nat.reduceSub, if_true, UInt8.reduceToNat] at h hleast₂ hgreatest₂
        obtain ⟨hc, rfl⟩ := h
        refine ⟨bs, ?_, rfl⟩
        rw [hc, encodeChar_three (by omega) (by omega) (by omega) (by omega) (by omega),
          ofNat_add_sub hlow, ofNat_add_sub (by omega), ofNat_add_sub hleast₂]
        rfl
      · rw [hp] at h
        simp only [Nat.reduceEqDiff, if_false] at h
        obtain ⟨b₂, bs, rfl, hleast₂, hgreatest₂, h⟩ := piecesFrom_some_eq_char h
        simp only [Nat.reduceSub, Nat.reduceEqDiff, if_false, UInt8.reduceToNat]
          at h hleast₂ hgreatest₂
        obtain ⟨b₃, bs, rfl, hleast₃, hgreatest₃, h⟩ := piecesFrom_some_eq_char h
        simp only [Nat.reduceSub, if_true, UInt8.reduceToNat] at h hleast₃ hgreatest₃
        obtain ⟨hc, rfl⟩ := h
        refine ⟨bs, ?_, rfl⟩
        rw [hc, encodeChar_four (by omega) (by omega) (by omega) (by omega) (by omega) (by omega),
          ofNat_add_sub hlow, ofNat_add_sub (by omega), ofNat_add_sub hleast₂,
          ofNat_add_sub hleast₃]
        rfl

theorem piecesFrom_some_ne_nil (p : Pending) (bs : Bytes) : piecesFrom (some p) bs ≠ [] := by
  induction bs generalizing p with
  | nil => simp [piecesFrom]
  | cons b bs ih =>
    rw [piecesFrom]
    split
    · split
      · exact List.cons_ne_nil _ _
      · exact ih _
    · exact List.cons_ne_nil _ _

/-- A text is written in the bytes it was read from. -/
theorem encode_of_decode {bs : Bytes} {s : List Char} (h : decode bs = some s) : encode s = bs := by
  have hpieces := eq_map_char_of_charsOf _ s h
  unfold pieces at hpieces
  clear h
  induction s generalizing bs with
  | nil =>
    cases bs with
    | nil => rfl
    | cons b bs =>
      rw [piecesFrom] at hpieces
      split at hpieces
      · cases hpieces
      · exact absurd hpieces (piecesFrom_some_ne_nil _ bs)
  | cons c s ih =>
    obtain ⟨rest, rfl, hrest⟩ := piecesFrom_eq_char hpieces
    rw [encode_cons, ih hrest.symm]

theorem piecesFrom_broken {p : Pending} {b : UInt8} (h : ¬(p.least ≤ b ∧ b ≤ p.greatest))
    (bs : Bytes) : piecesFrom (some p) (b :: bs) = .broken p.seen :: piecesFrom none (b :: bs) := by
  conv_lhs => rw [piecesFrom, if_neg h]
  rfl

theorem piecesFrom_some_eq_cons {p : Pending} {bs : Bytes} {piece : Piece} {ps : List Piece}
    (h : piecesFrom (some p) bs = piece :: ps) :
    ∃ rest, rest <:+ bs ∧ ps = piecesFrom none rest := by
  induction bs generalizing p with
  | nil =>
    rw [piecesFrom] at h
    exact ⟨[], List.suffix_rfl, (List.cons.inj h).2.symm⟩
  | cons b bs ih =>
    by_cases hbounds : p.least ≤ b ∧ b ≤ p.greatest
    · rw [piecesFrom, if_pos hbounds] at h
      simp only at h
      split at h
      · exact ⟨bs, List.suffix_cons b bs, (List.cons.inj h).2.symm⟩
      · obtain ⟨rest, hrest, hps⟩ := ih h
        exact ⟨rest, hrest.trans (List.suffix_cons b bs), hps⟩
    · rw [piecesFrom_broken hbounds] at h
      exact ⟨b :: bs, List.suffix_rfl, (List.cons.inj h).2.symm⟩

theorem piecesFrom_eq_cons {bs : Bytes} {piece : Piece} {ps : List Piece}
    (h : piecesFrom none bs = piece :: ps) :
    ∃ rest, rest <:+ bs ∧ rest.length < bs.length ∧ ps = piecesFrom none rest := by
  cases bs with
  | nil => cases h
  | cons b bs =>
    rw [piecesFrom] at h
    cases hstart : start b with
    | inl first =>
      simp only [hstart, List.cons.injEq] at h
      exact ⟨bs, List.suffix_cons b bs, by simp, h.2.symm⟩
    | inr p =>
      simp only [hstart] at h
      obtain ⟨rest, hrest, hps⟩ := piecesFrom_some_eq_cons h
      exact ⟨rest, hrest.trans (List.suffix_cons b bs),
        Nat.lt_succ_of_le hrest.length_le, hps⟩

theorem infix_of_mem_pieces {c : Char} {bs : Bytes} (h : .char c ∈ pieces bs) :
    encodeChar c <:+: bs := by
  unfold pieces at h
  induction hlength : bs.length using Nat.strong_induction_on generalizing bs with
  | _ n ih =>
    cases hpieces : piecesFrom none bs with
    | nil =>
      rw [hpieces] at h
      cases h
    | cons piece ps =>
      rw [hpieces] at h
      rcases List.mem_cons.mp h with rfl | h
      · obtain ⟨rest, rfl, -⟩ := piecesFrom_eq_char hpieces
        exact (List.prefix_append _ rest).isInfix
      · obtain ⟨rest, hrest, hshort, rfl⟩ := piecesFrom_eq_cons hpieces
        exact (ih _ (hlength ▸ hshort) h rfl).trans hrest.isInfix

def Piece.lossy : Piece → Char
  | .char c => c
  | _ => '\ufffd'

theorem decodeLossy_eq_map (bs : Bytes) :
    decodeLossy bs = (piecesFrom none bs).map Piece.lossy := by
  unfold decodeLossy pieces
  apply List.map_congr_left
  intro piece _
  cases piece <;> rfl

theorem least_of_start {b : UInt8} {p : Pending} (h : start b = .inr p) : Path.slash < p.least := by
  have hall : ∀ n < 256, ∀ p ∈ (start (.ofNat n)).getRight?, Path.slash < p.least := by
    decide +kernel
  exact hall b.toNat b.toNat_lt p (by rw [UInt8.ofNat_toNat, h]; rfl)

/-- A slash is read on its own, whatever was under way; what it cuts short is broken. -/
theorem piecesFrom_append_slash {β : Type} {f : Piece → β} (hf : ∀ n, f (.cut n) = f (.broken n))
    (pending : Option Pending) (hleast : ∀ p ∈ pending, Path.slash < p.least)
    (front rest : Bytes) :
    (piecesFrom pending (front ++ Path.slash :: rest)).map f =
      (piecesFrom pending front).map f ++ f (.char '/') :: (piecesFrom none rest).map f := by
  have hslash : piecesFrom none (Path.slash :: rest) = .char '/' :: piecesFrom none rest := rfl
  induction front generalizing pending with
  | nil =>
    cases pending with
    | none =>
      rw [List.nil_append, hslash]
      rfl
    | some p =>
      have hout : ¬(p.least ≤ Path.slash ∧ Path.slash ≤ p.greatest) :=
        fun hbounds => absurd hbounds.1 (UInt8.not_le.mpr (hleast p rfl))
      rw [List.nil_append, piecesFrom_broken hout, hslash]
      simp [piecesFrom, hf]
  | cons b front ih =>
    have hfresh : (piecesFrom none (b :: front ++ Path.slash :: rest)).map f =
        (piecesFrom none (b :: front)).map f ++
          f (.char '/') :: (piecesFrom none rest).map f := by
      rw [List.cons_append, piecesFrom, piecesFrom]
      cases hb : start b with
      | inl piece => simp [ih none (by simp)]
      | inr p => exact ih (some p) fun q hq => Option.some.inj hq ▸ least_of_start hb
    cases pending with
    | none => exact hfresh
    | some p =>
      by_cases hbounds : p.least ≤ b ∧ b ≤ p.greatest
      · rw [List.cons_append, piecesFrom, piecesFrom, if_pos hbounds, if_pos hbounds]
        simp only
        split
        · simp [ih none (by simp)]
        · apply ih
          intro q hq
          rw [← Option.some.inj hq]
          exact (by decide : Path.slash < 0x80)
      · rw [List.cons_append] at hfresh ⊢
        rw [piecesFrom_broken hbounds, piecesFrom_broken hbounds, List.map_cons, List.map_cons,
          hfresh, List.cons_append]

theorem decodeLossy_append_slash (front rest : Bytes) :
    decodeLossy (front ++ Path.slash :: rest) = decodeLossy front ++ '/' :: decodeLossy rest := by
  rw [decodeLossy_eq_map, decodeLossy_eq_map, decodeLossy_eq_map]
  exact piecesFrom_append_slash (fun _ => rfl) none (by simp) front rest

def Piece.char? : Piece → Option Char
  | .char c => some c
  | _ => none

@[simp] theorem decode_nil : decode [] = some [] := rfl

theorem isSome_charsOf (ps : List Piece) :
    (charsOf ps).isSome ↔ ∀ c? ∈ ps.map Piece.char?, c?.isSome := by
  induction ps with
  | nil => simp [charsOf]
  | cons piece ps ih => cases piece <;> simp_all [charsOf, Piece.char?]

theorem isSome_decode_append_slash (front rest : Bytes) :
    (decode (front ++ Path.slash :: rest)).isSome ↔
      (decode front).isSome ∧ (decode rest).isSome := by
  have hpieces :=
    piecesFrom_append_slash (f := Piece.char?) (fun _ => rfl) none (by simp) front rest
  unfold decode pieces
  rw [isSome_charsOf, isSome_charsOf, isSome_charsOf, hpieces, List.forall_mem_append,
    List.forall_mem_cons]
  simp [Piece.char?]

end ApiAtlas.Utf8
