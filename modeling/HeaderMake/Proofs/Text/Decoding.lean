import HeaderMake.Text.Utf8
import Mathlib.Tactic.SplitIfs

/-!
# Lossy decoding piece by piece

An ASCII byte is a character wherever it stands: it ends a truncated sequence before it
and is never swallowed by one.  Decoding therefore commutes with cutting at an ASCII byte,
and with cutting into lines (`lines_decodeLossy`).

Decoding also reads back what was encoded (`decodeLossy_encode`).
-/

namespace HeaderMake
namespace Utf8

/-- The bytes that begin a sequence of several bytes. -/
def IsLead (byte : UInt8) : Prop :=
  ¬byte < 0x80 ∧ ¬(byte < 0xC2 || 0xF4 < byte) = true

/-! ## One piece at a time -/

theorem pieces_ascii {byte : UInt8} (h : byte < 0x80) (rest : Bytes) :
    pieces (byte :: rest) = some (Char.ofNat byte.toNat) :: pieces rest := by
  rw [pieces.eq_def]
  simp only [if_pos h]

theorem pieces_of_no_lead {byte : UInt8} (h : ¬byte < 0x80)
    (hlead : (byte < 0xC2 || 0xF4 < byte) = true) (rest : Bytes) :
    pieces (byte :: rest) = none :: pieces rest := by
  rw [pieces.eq_def]
  simp only [if_neg h, if_pos hlead]

theorem pieces_broken_second {lead byte : UInt8} (h : IsLead lead)
    (hsecond : mayFollow lead byte = false) (rest : Bytes) :
    pieces (lead :: byte :: rest) = none :: pieces (byte :: rest) := by
  rw [pieces.eq_def]
  simp only [if_neg h.1, if_neg h.2, hsecond, Bool.not_false, if_true]

theorem pieces_two {lead second : UInt8} (h : IsLead lead)
    (hsecond : mayFollow lead second = true) (hlead : lead < 0xE0)
    (rest : Bytes) :
    pieces (lead :: second :: rest) =
      some (scalar 0xC0 lead [second]) :: pieces rest := by
  rw [pieces.eq_def]
  simp only [if_neg h.1, if_neg h.2, hsecond, Bool.not_true,
    Bool.false_eq_true, if_false, if_pos hlead]

theorem pieces_broken_third {lead second byte : UInt8} (h : IsLead lead)
    (hsecond : mayFollow lead second = true) (hlead : ¬lead < 0xE0)
    (hthird : isContinuation byte = false) (rest : Bytes) :
    pieces (lead :: second :: byte :: rest) =
      none :: pieces (byte :: rest) := by
  rw [pieces.eq_def]
  simp only [if_neg h.1, if_neg h.2, hsecond, hthird, Bool.not_true,
    Bool.not_false, Bool.false_eq_true, if_false, if_true, if_neg hlead]

theorem pieces_three {lead second third : UInt8} (h : IsLead lead)
    (hsecond : mayFollow lead second = true) (hlow : ¬lead < 0xE0)
    (hthird : isContinuation third = true) (hlead : lead < 0xF0)
    (rest : Bytes) :
    pieces (lead :: second :: third :: rest) =
      some (scalar 0xE0 lead [second, third]) :: pieces rest := by
  rw [pieces.eq_def]
  simp only [if_neg h.1, if_neg h.2, hsecond, hthird, Bool.not_true,
    Bool.false_eq_true, if_false, if_neg hlow, if_pos hlead]

theorem pieces_broken_fourth {lead second third byte : UInt8}
    (h : IsLead lead) (hsecond : mayFollow lead second = true)
    (hlow : ¬lead < 0xE0) (hthird : isContinuation third = true)
    (hlead : ¬lead < 0xF0) (hfourth : isContinuation byte = false)
    (rest : Bytes) :
    pieces (lead :: second :: third :: byte :: rest) =
      none :: pieces (byte :: rest) := by
  rw [pieces.eq_def]
  simp only [if_neg h.1, if_neg h.2, hsecond, hthird, hfourth,
    Bool.not_true, Bool.not_false, Bool.false_eq_true, if_false, if_true,
    if_neg hlow, if_neg hlead]

theorem pieces_four {lead second third fourth : UInt8} (h : IsLead lead)
    (hsecond : mayFollow lead second = true) (hlow : ¬lead < 0xE0)
    (hthird : isContinuation third = true) (hlead : ¬lead < 0xF0)
    (hfourth : isContinuation fourth = true) (rest : Bytes) :
    pieces (lead :: second :: third :: fourth :: rest) =
      some (scalar 0xF0 lead [second, third, fourth]) :: pieces rest := by
  rw [pieces.eq_def]
  simp only [if_neg h.1, if_neg h.2, hsecond, hthird, hfourth,
    Bool.not_true, Bool.false_eq_true, if_false, if_neg hlow, if_neg hlead]

/-! ## ASCII bytes stand for themselves -/

theorem isContinuation_of_ascii {byte : UInt8} (h : byte < 0x80) :
    isContinuation byte = false := by
  have hlow : ¬(0x80 : UInt8) ≤ byte := UInt8.not_le.mpr h
  simp [isContinuation, hlow]

theorem mayFollow_of_ascii {byte : UInt8} (h : byte < 0x80) (lead : UInt8) :
    mayFollow lead byte = false := by
  have hlow : ∀ low : UInt8, 0x80 ≤ low → ¬low ≤ byte := by
    intro low hlow hle
    exact UInt8.not_le.mpr h (UInt8.le_trans hlow hle)
  simp [mayFollow, isContinuation_of_ascii h, hlow 0xA0 (by decide),
    hlow 0x80 (by decide), hlow 0x90 (by decide)]

/-- Decoding cuts at every ASCII byte, whatever stands before it. -/
theorem pieces_append_ascii (bytes : Bytes) {byte : UInt8} (h : byte < 0x80)
    (rest : Bytes) :
    pieces (bytes ++ byte :: rest) =
      pieces bytes ++ some (Char.ofNat byte.toNat) :: pieces rest := by
  fun_induction pieces bytes with
  | case1 => exact pieces_ascii h rest
  | case2 lead tail hlead ih =>
      rw [List.cons_append, pieces_ascii hlead, ih, List.cons_append]
  | case3 lead tail hlead hbad ih =>
      rw [List.cons_append, pieces_of_no_lead hlead hbad, ih,
        List.cons_append]
  | case4 lead hlead hgood =>
      rw [List.singleton_append, pieces_broken_second ⟨hlead, hgood⟩
        (mayFollow_of_ascii h lead), pieces_ascii h, List.singleton_append]
  | case5 lead hlead hgood second tail hsecond ih =>
      rw [List.cons_append, List.cons_append, pieces_broken_second
        ⟨hlead, hgood⟩ (by simpa using hsecond), ← List.cons_append, ih,
        List.cons_append]
  | case6 lead hlead hgood second tail hsecond htwo ih =>
      rw [List.cons_append, List.cons_append, pieces_two ⟨hlead, hgood⟩
        (by simpa using hsecond) htwo, ih, List.cons_append]
  | case7 lead hlead hgood second hsecond htwo =>
      rw [List.cons_append, List.singleton_append, pieces_broken_third
        ⟨hlead, hgood⟩ (by simpa using hsecond) htwo
        (isContinuation_of_ascii h), pieces_ascii h, List.singleton_append]
  | case8 lead hlead hgood second hsecond htwo third tail hthird ih =>
      rw [List.cons_append, List.cons_append, List.cons_append,
        pieces_broken_third ⟨hlead, hgood⟩ (by simpa using hsecond) htwo
          (by simpa using hthird), ← List.cons_append, ih, List.cons_append]
  | case9 lead hlead hgood second hsecond htwo third tail hthird hthree ih =>
      rw [List.cons_append, List.cons_append, List.cons_append,
        pieces_three ⟨hlead, hgood⟩ (by simpa using hsecond) htwo
          (by simpa using hthird) hthree, ih, List.cons_append]
  | case10 lead hlead hgood second hsecond htwo third hthird hthree =>
      rw [List.cons_append, List.cons_append, List.singleton_append,
        pieces_broken_fourth ⟨hlead, hgood⟩ (by simpa using hsecond) htwo
          (by simpa using hthird) hthree (isContinuation_of_ascii h),
        pieces_ascii h, List.singleton_append]
  | case11 lead hlead hgood second hsecond htwo third hthird hthree fourth
      tail hfourth ih =>
      rw [List.cons_append, List.cons_append, List.cons_append,
        List.cons_append, pieces_broken_fourth ⟨hlead, hgood⟩
          (by simpa using hsecond) htwo (by simpa using hthird) hthree
          (by simpa using hfourth), ← List.cons_append, ih, List.cons_append]
  | case12 lead hlead hgood second hsecond htwo third hthird hthree fourth
      tail hfourth ih =>
      rw [List.cons_append, List.cons_append, List.cons_append,
        List.cons_append, pieces_four ⟨hlead, hgood⟩
          (by simpa using hsecond) htwo (by simpa using hthird) hthree
          (by simpa using hfourth), ih, List.cons_append]

/-! ## The ranges of the bytes of a sequence -/

theorem isLead_iff {byte : UInt8} :
    IsLead byte ↔ 0xC2 ≤ byte.toNat ∧ byte.toNat ≤ 0xF4 := by
  simp only [IsLead, Bool.or_eq_true, decide_eq_true_eq,
    UInt8.lt_iff_toNat_lt, UInt8.reduceToNat]
  omega

theorem isContinuation_iff {byte : UInt8} :
    isContinuation byte = true ↔
      0x80 ≤ byte.toNat ∧ byte.toNat ≤ 0xBF := by
  simp [isContinuation, UInt8.le_iff_toNat_le]

theorem mayFollow_iff {lead byte : UInt8} :
    mayFollow lead byte = true ↔
      (0x80 ≤ byte.toNat ∧ byte.toNat ≤ 0xBF) ∧
        (lead.toNat = 0xE0 → 0xA0 ≤ byte.toNat) ∧
        (lead.toNat = 0xED → byte.toNat ≤ 0x9F) ∧
        (lead.toNat = 0xF0 → 0x90 ≤ byte.toNat) ∧
        (lead.toNat = 0xF4 → byte.toNat ≤ 0x8F) := by
  unfold mayFollow
  split_ifs with h h h h <;>
    simp only [isContinuation_iff, Bool.and_eq_true, decide_eq_true_eq,
      UInt8.le_iff_toNat_le, ← UInt8.toNat_inj, UInt8.reduceToNat] at * <;>
    omega

theorem toNat_ofNat_of_valid {value : Nat} (h : value.isValidChar) :
    (Char.ofNat value).toNat = value := by
  rw [Char.ofNat, dif_pos h]
  rfl

/-- The value of a sequence of two bytes lies above the ASCII range. -/
theorem toNat_scalar_two {lead second : UInt8} (h : IsLead lead)
    (hsecond : mayFollow lead second = true) (hlead : lead < 0xE0) :
    0x80 ≤ (scalar 0xC0 lead [second]).toNat := by
  rw [isLead_iff] at h
  rw [mayFollow_iff] at hsecond
  rw [UInt8.lt_iff_toNat_lt] at hlead
  simp only [scalar, List.foldl_cons, List.foldl_nil,
    UInt8.reduceToNat] at hlead ⊢
  rw [toNat_ofNat_of_valid]
  · omega
  · unfold Nat.isValidChar
    omega

theorem toNat_scalar_three {lead second third : UInt8} (h : IsLead lead)
    (hsecond : mayFollow lead second = true) (hlow : ¬lead < 0xE0)
    (hthird : isContinuation third = true) (hlead : lead < 0xF0) :
    0x80 ≤ (scalar 0xE0 lead [second, third]).toNat := by
  rw [isLead_iff] at h
  rw [mayFollow_iff] at hsecond
  rw [isContinuation_iff] at hthird
  rw [UInt8.lt_iff_toNat_lt] at hlow hlead
  simp only [scalar, List.foldl_cons, List.foldl_nil,
    UInt8.reduceToNat] at hlow hlead ⊢
  rw [toNat_ofNat_of_valid]
  · omega
  · unfold Nat.isValidChar
    omega

theorem toNat_scalar_four {lead second third fourth : UInt8}
    (h : IsLead lead) (hsecond : mayFollow lead second = true)
    (hthird : isContinuation third = true) (hlead : ¬lead < 0xF0)
    (hfourth : isContinuation fourth = true) :
    0x80 ≤ (scalar 0xF0 lead [second, third, fourth]).toNat := by
  rw [isLead_iff] at h
  rw [mayFollow_iff] at hsecond
  rw [isContinuation_iff] at hthird hfourth
  rw [UInt8.lt_iff_toNat_lt] at hlead
  simp only [scalar, List.foldl_cons, List.foldl_nil,
    UInt8.reduceToNat] at hlead ⊢
  rw [toNat_ofNat_of_valid]
  · omega
  · unfold Nat.isValidChar
    omega

/-- An ASCII character is decoded only from its own byte. -/
theorem mem_of_some_mem_pieces {bytes : Bytes} {c : Char}
    (hascii : c.toNat < 0x80) (hmem : some c ∈ pieces bytes) :
    UInt8.ofNat c.toNat ∈ bytes := by
  fun_induction pieces bytes with
  | case1 => cases hmem
  | case2 byte tail hbyte ih =>
      rcases List.mem_cons.mp hmem with heq | hmem
      · rw [Option.some.inj heq, toNat_ofNat_of_valid
          (Or.inl (by rw [UInt8.lt_iff_toNat_lt] at hbyte; exact
            Nat.lt_trans hbyte (by decide))), UInt8.ofNat_toNat]
        exact List.mem_cons_self
      · exact List.mem_cons_of_mem _ (ih hmem)
  | case3 byte tail _ _ ih =>
      rcases List.mem_cons.mp hmem with heq | hmem
      · cases heq
      · exact List.mem_cons_of_mem _ (ih hmem)
  | case4 => simp at hmem
  | case5 lead _ _ second tail _ ih =>
      rcases List.mem_cons.mp hmem with heq | hmem
      · cases heq
      · exact List.mem_cons_of_mem _ (ih hmem)
  | case6 lead hlead hgood second tail hsecond htwo ih =>
      rcases List.mem_cons.mp hmem with heq | hmem
      · have hlow := toNat_scalar_two ⟨hlead, hgood⟩
          (by simpa using hsecond) htwo
        rw [← Option.some.inj heq] at hlow
        omega
      · exact List.mem_cons_of_mem _ (List.mem_cons_of_mem _ (ih hmem))
  | case7 => simp at hmem
  | case8 lead _ _ second _ _ third tail _ ih =>
      rcases List.mem_cons.mp hmem with heq | hmem
      · cases heq
      · exact List.mem_cons_of_mem _ (List.mem_cons_of_mem _ (ih hmem))
  | case9 lead hlead hgood second hsecond hlow third tail hthird hthree ih =>
      rcases List.mem_cons.mp hmem with heq | hmem
      · have hlow := toNat_scalar_three ⟨hlead, hgood⟩
          (by simpa using hsecond) hlow (by simpa using hthird) hthree
        rw [← Option.some.inj heq] at hlow
        omega
      · exact List.mem_cons_of_mem _
          (List.mem_cons_of_mem _ (List.mem_cons_of_mem _ (ih hmem)))
  | case10 => simp at hmem
  | case11 lead _ _ second _ _ third _ _ fourth tail _ ih =>
      rcases List.mem_cons.mp hmem with heq | hmem
      · cases heq
      · exact List.mem_cons_of_mem _
          (List.mem_cons_of_mem _ (List.mem_cons_of_mem _ (ih hmem)))
  | case12 lead hlead hgood second hsecond _ third hthird hthree fourth tail
      hfourth ih =>
      rcases List.mem_cons.mp hmem with heq | hmem
      · have hlow := toNat_scalar_four ⟨hlead, hgood⟩
          (by simpa using hsecond) (by simpa using hthird) hthree
          (by simpa using hfourth)
        rw [← Option.some.inj heq] at hlow
        omega
      · exact List.mem_cons_of_mem _ (List.mem_cons_of_mem _
          (List.mem_cons_of_mem _ (List.mem_cons_of_mem _ (ih hmem))))

/-! ## ASCII characters -/

theorem toNat_byte (value : Nat) (h : value < 256) :
    (UInt8.ofNat value).toNat = value := by
  rw [UInt8.toNat_ofNat']
  exact Nat.mod_eq_of_lt h

theorem toNat_ofNat_of_ascii {c : Char} (hascii : c.toNat < 0x80) :
    (UInt8.ofNat c.toNat).toNat = c.toNat :=
  toNat_byte c.toNat (Nat.lt_trans hascii (by decide))

/-- An ASCII byte is decoded as a character of its own, whatever stands around it. -/
theorem decodeLossy_append_ascii (bytes : Bytes) {c : Char}
    (hascii : c.toNat < 0x80) (rest : Bytes) :
    decodeLossy (bytes ++ UInt8.ofNat c.toNat :: rest) =
      decodeLossy bytes ++ c :: decodeLossy rest := by
  have hbyte : UInt8.ofNat c.toNat < 0x80 := by
    rw [UInt8.lt_iff_toNat_lt, toNat_ofNat_of_ascii hascii]
    exact hascii
  unfold decodeLossy
  rw [pieces_append_ascii bytes hbyte rest, List.map_append, List.map_cons,
    toNat_ofNat_of_ascii hascii, Char.ofNat_toNat, Option.getD_some]

theorem not_mem_decodeLossy {c : Char} (hascii : c.toNat < 0x80)
    {bytes : Bytes} (h : UInt8.ofNat c.toNat ∉ bytes) :
    c ∉ decodeLossy bytes := by
  intro hmem
  obtain ⟨piece, hpiece, hc⟩ := List.mem_map.mp hmem
  cases piece with
  | none =>
      rw [Option.getD_none] at hc
      subst hc
      exact absurd hascii (by decide)
  | some d =>
      rw [Option.getD_some] at hc
      subst hc
      exact h (mem_of_some_mem_pieces hascii hpiece)

/-! ## Lines -/

theorem decodeLossy_append_newline (bytes rest : Bytes) :
    decodeLossy (bytes ++ 10 :: rest) =
      decodeLossy bytes ++ '\n' :: decodeLossy rest :=
  decodeLossy_append_ascii bytes (c := '\n') (by decide) rest

theorem newline_not_mem_decodeLossy {bytes : Bytes} (h : 10 ∉ bytes) :
    '\n' ∉ decodeLossy bytes :=
  not_mem_decodeLossy (by decide) h

/-- The lines of the decoded bytes are the decoded lines of the bytes. -/
theorem lines_decodeLossy (bytes : Bytes) :
    (decodeLossy bytes).lines = (bytes.splitOn 10).map decodeLossy := by
  by_cases hmem : 10 ∈ bytes
  · obtain ⟨before, after, rfl⟩ := List.append_of_mem hmem
    have hbefore := lines_decodeLossy before
    have hafter := lines_decodeLossy after
    unfold Text.lines at hbefore hafter ⊢
    rw [decodeLossy_append_newline, List.splitOn_append_cons_self,
      List.splitOn_append_cons_self, List.map_append, hbefore, hafter]
  · rw [List.splitOn_eq_singleton hmem]
    exact List.splitOn_eq_singleton (newline_not_mem_decodeLossy hmem)
termination_by bytes.length
decreasing_by
  · subst_vars
    simp
  · subst_vars
    simp
    omega

/-! ## Reading back what was encoded -/

theorem pieces_encodeChar_append (c : Char) (rest : Bytes) :
    pieces (String.utf8EncodeChar c ++ rest) = some c :: pieces rest := by
  have hvalid : c.val.toNat.isValidChar := c.valid
  have hchar : Char.ofNat c.val.toNat = c := Char.ofNat_toNat c
  unfold String.utf8EncodeChar
  generalize c.val.toNat = value at hvalid hchar
  unfold Nat.isValidChar at hvalid
  dsimp only
  split_ifs with hone htwo hthree
  · have hbyte := toNat_byte value (by omega)
    have hascii : UInt8.ofNat value < 0x80 := by
      rw [UInt8.lt_iff_toNat_lt, hbyte]
      exact Nat.lt_succ_of_le hone
    rw [List.singleton_append, pieces_ascii hascii, hbyte, hchar]
  · have hlead := toNat_byte (value / 64 % 0x20 + 0xC0) (by omega)
    have hsecond := toNat_byte (value % 0x40 + 0x80) (by omega)
    have hvalue : (value / 64 % 0x20 + 0xC0 - 0xC0) * 64 +
        (value % 0x40 + 0x80 - 0x80) = value := by omega
    rw [List.cons_append, List.singleton_append, pieces_two]
    · simp only [scalar, List.foldl_cons, List.foldl_nil, hlead, hsecond,
        UInt8.reduceToNat, hvalue, hchar]
    · rw [isLead_iff, hlead]
      omega
    · rw [mayFollow_iff, hlead, hsecond]
      omega
    · rw [UInt8.lt_iff_toNat_lt, hlead]
      exact Nat.add_lt_add_right (Nat.mod_lt _ (by decide)) 0xC0
  · have hlead := toNat_byte (value / 4096 % 0x10 + 0xE0) (by omega)
    have hsecond := toNat_byte (value / 64 % 0x40 + 0x80) (by omega)
    have hthird := toNat_byte (value % 0x40 + 0x80) (by omega)
    have hvalue : ((value / 4096 % 0x10 + 0xE0 - 0xE0) * 64 +
        (value / 64 % 0x40 + 0x80 - 0x80)) * 64 +
        (value % 0x40 + 0x80 - 0x80) = value := by omega
    rw [List.cons_append, List.cons_append, List.singleton_append,
      pieces_three]
    · simp only [scalar, List.foldl_cons, List.foldl_nil, hlead, hsecond,
        hthird, UInt8.reduceToNat, hvalue, hchar]
    · rw [isLead_iff, hlead]
      omega
    · rw [mayFollow_iff, hlead, hsecond]
      omega
    · rw [UInt8.lt_iff_toNat_lt, hlead]
      exact Nat.not_lt.mpr (Nat.le_add_left _ _)
    · rw [isContinuation_iff, hthird]
      omega
    · rw [UInt8.lt_iff_toNat_lt, hlead]
      exact Nat.add_lt_add_right (Nat.mod_lt _ (by decide)) 0xE0
  · have hlead := toNat_byte (value / 262144 % 0x08 + 0xF0) (by omega)
    have hsecond := toNat_byte (value / 4096 % 0x40 + 0x80) (by omega)
    have hthird := toNat_byte (value / 64 % 0x40 + 0x80) (by omega)
    have hfourth := toNat_byte (value % 0x40 + 0x80) (by omega)
    have hvalue : (((value / 262144 % 0x08 + 0xF0 - 0xF0) * 64 +
        (value / 4096 % 0x40 + 0x80 - 0x80)) * 64 +
        (value / 64 % 0x40 + 0x80 - 0x80)) * 64 +
        (value % 0x40 + 0x80 - 0x80) = value := by omega
    rw [List.cons_append, List.cons_append, List.cons_append,
      List.singleton_append, pieces_four]
    · simp only [scalar, List.foldl_cons, List.foldl_nil, hlead, hsecond,
        hthird, hfourth, UInt8.reduceToNat, hvalue, hchar]
    · rw [isLead_iff, hlead]
      omega
    · rw [mayFollow_iff, hlead, hsecond]
      omega
    · rw [UInt8.lt_iff_toNat_lt, hlead]
      exact Nat.not_lt.mpr (Nat.le_trans (by decide) (Nat.le_add_left _ _))
    · rw [isContinuation_iff, hthird]
      omega
    · rw [UInt8.lt_iff_toNat_lt, hlead]
      exact Nat.not_lt.mpr (Nat.le_add_left _ _)
    · rw [isContinuation_iff, hfourth]
      omega

theorem decodeLossy_encode_append (text : Text) (rest : Bytes) :
    decodeLossy (encode text ++ rest) = text ++ decodeLossy rest := by
  induction text with
  | nil => rfl
  | cons c text ih =>
      unfold decodeLossy at ih ⊢
      rw [encode_cons, List.append_assoc, pieces_encodeChar_append,
        List.map_cons, ih, Option.getD_some, List.cons_append]

theorem decodeLossy_encode (text : Text) :
    decodeLossy (encode text) = text := by
  have happend := decodeLossy_encode_append text []
  rw [List.append_nil] at happend
  rw [happend]
  exact List.append_nil text

end Utf8
end HeaderMake
