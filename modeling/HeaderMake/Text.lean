/-!
# Texts

A text is a list of characters, so cutting, joining and measuring texts are list
operations, and what is known about lists is known about texts.  Paths, file names,
configuration values and generated files are all texts; the outer layer converts
from and to `String` when it reads and prints.

The operations below are the ones that the rest of the library is written with:
dropping a leading text, cutting at the first occurrence of a mark, and splitting
into lines.  Each comes with the equation that says that no character is lost.
-/

namespace HeaderMake

/-- A text is a sequence of Unicode scalar values. -/
abbrev Text := List Char

namespace Text

/-- What follows `mark` in a text that begins with `mark`. -/
def dropLeading? : (mark text : Text) → Option Text
  | [], text => some text
  | _ :: _, [] => none
  | m :: mark, c :: text => if m = c then dropLeading? mark text else none

theorem dropLeading?_eq_some_iff {mark text rest : Text} :
    dropLeading? mark text = some rest ↔ text = mark ++ rest := by
  induction mark generalizing text with
  | nil => simp [dropLeading?]
  | cons m mark ih =>
    cases text with
    | nil => simp [dropLeading?]
    | cons c text =>
      by_cases h : m = c
      · simp [dropLeading?, h, ih]
      · simp [dropLeading?, h, Ne.symm h]

/-- Cuts a text at the first occurrence of `mark`, giving what stands before it and
what follows it. -/
def cutAt? (mark : Text) : Text → Option (Text × Text)
  | [] => (dropLeading? mark []).map fun rest => ([], rest)
  | c :: text =>
    match dropLeading? mark (c :: text) with
    | some rest => some ([], rest)
    | none => (cutAt? mark text).map fun (before, after) => (c :: before, after)

/-- The two parts of a cut and the mark between them make up the text. -/
theorem eq_append_of_cutAt? {mark text before after : Text}
    (h : cutAt? mark text = some (before, after)) :
    text = before ++ mark ++ after := by
  induction text generalizing before with
  | nil =>
    simp only [cutAt?, Option.map_eq_some_iff] at h
    obtain ⟨rest, hrest, heq⟩ := h
    obtain ⟨rfl, rfl⟩ := Prod.mk.inj heq
    simpa using dropLeading?_eq_some_iff.1 hrest
  | cons c text ih =>
    unfold cutAt? at h
    split at h
    · next rest hrest =>
      obtain ⟨rfl, rfl⟩ := Prod.mk.inj (Option.some.inj h)
      simpa using dropLeading?_eq_some_iff.1 hrest
    · obtain ⟨⟨b, a⟩, hba, heq⟩ := Option.map_eq_some_iff.1 h
      obtain ⟨rfl, rfl⟩ := Prod.mk.inj heq
      simp [ih hba]

/-- Whether `mark` occurs anywhere in the text. -/
def contains (mark text : Text) : Bool :=
  (cutAt? mark text).isSome

/-- The lines of a text, cut at line feeds.  A carriage return before the line feed
stays at the end of its line. -/
def lines (text : Text) : List Text :=
  text.splitOn '\n'

/-- The text without the slashes at its end. -/
def dropTrailingSlashes (text : Text) : Text :=
  (text.reverse.dropWhile (· == '/')).reverse

/-- Orders texts character by character, a text before its continuations.  Since UTF-8
keeps the order of scalar values, this is also the order of the encoded bytes. -/
def le : (left right : Text) → Bool
  | [], _ => true
  | _ :: _, [] => false
  | c :: left, d :: right => c.toNat < d.toNat || (c == d && le left right)

/-- Whether one of some texts is a given text is decided by comparing them one by one. -/
instance (text : Text) (texts : List Text) : Decidable (text ∈ texts) :=
  decidable_of_iff (texts.contains text = true) List.contains_iff_mem

/-- The decimal digits of a number. -/
def ofNat (n : Nat) : Text :=
  Nat.toDigits 10 n

end Text
end HeaderMake
