/-
  Texts and bytes: stripping, the UTF-8 encoding, and cutting a stream at a separator.

  `takeLines sep` gives the complete lines of a buffer and what is left after the last
  separator; it is the loop that cuts the first line off while there is one (`takeLines_cut`).
  A stream may be taken in parts: the lines of a concatenation are those of its first part, then
  those of the rest of it with the second part (`takeLines_append`).
-/
import Mathlib.Data.List.DropRight

namespace Lib

/-! ## Stripping -/

/-- White space of `str.strip`. -/
def isStripped (c : Char) : Bool :=
  c.toNat ∈ [0x09, 0x0a, 0x0b, 0x0c, 0x0d, 0x1c, 0x1d, 0x1e, 0x1f, 0x20, 0x85, 0xa0, 0x1680,
    0x2000, 0x2001, 0x2002, 0x2003, 0x2004, 0x2005, 0x2006, 0x2007, 0x2008, 0x2009, 0x200a,
    0x2028, 0x2029, 0x202f, 0x205f, 0x3000]

/-- `line.strip()` -/
def strip (line : List Char) : List Char := (line.dropWhile isStripped).rdropWhile isStripped

theorem isStripped_of_range {c : Char} (h : 0x20 < c.toNat) (h' : c.toNat < 0x80) :
    isStripped c = false := by
  simp only [isStripped, List.mem_cons, List.not_mem_nil, or_false, decide_eq_false_iff_not]
  omega

/-- Between two characters that stay nothing is stripped. -/
theorem strip_of_ends {c d : Char} (hc : isStripped c = false) (hd : isStripped d = false)
    (cs : List Char) : strip (c :: (cs ++ [d])) = c :: (cs ++ [d]) := by
  have hl : (c :: (cs ++ [d])).dropWhile isStripped = c :: (cs ++ [d]) :=
    List.dropWhile_cons_of_neg (by simp [hc])
  rw [strip, hl, ← List.cons_append, List.rdropWhile_concat_neg _ _ _ (by simp [hd])]

/-! ## UTF-8 -/

/-- `text.encode("utf-8")` -/
def encodeUtf8 (text : List Char) : List UInt8 := text.flatMap String.utf8EncodeChar

/-- `data.decode("utf-8")`; `none` is the decoding error. -/
def decodeUtf8 (data : List UInt8) : Option (List Char) :=
  (ByteArray.utf8Decode? data.toByteArray).map Array.toList

theorem decodeUtf8_encodeUtf8 (text : List Char) : decodeUtf8 (encodeUtf8 text) = some text := by
  have h := List.utf8Decode?_utf8Encode (l := text)
  rw [List.utf8Encode] at h
  rw [decodeUtf8, encodeUtf8, h, Option.map_some]

theorem encodeUtf8_append (cs ds : List Char) :
    encodeUtf8 (cs ++ ds) = encodeUtf8 cs ++ encodeUtf8 ds := List.flatMap_append

/-- An ASCII text has one byte for each character. -/
theorem encodeUtf8_ascii {text : List Char} (h : ∀ c ∈ text, c.toNat < 0x80) :
    encodeUtf8 text = text.map fun c => c.val.toUInt8 := by
  induction text with
  | nil => rfl
  | cons c cs ih =>
    have hc : c.utf8Size = 1 := by
      rw [Char.utf8Size_eq_one_iff, UInt32.le_iff_toNat_le]
      exact Nat.le_of_lt_succ (h c List.mem_cons_self)
    have ih := ih fun d hd => h d (List.mem_cons_of_mem c hd)
    rw [encodeUtf8] at ih ⊢
    rw [List.flatMap_cons, String.utf8EncodeChar_eq_singleton hc, ih, List.map_cons,
      List.singleton_append]

/-- The bytes of an ASCII text stand for its characters only. -/
theorem mem_encodeUtf8_ascii {text : List Char} (h : ∀ c ∈ text, c.toNat < 0x80) {b : UInt8}
    (hb : b ∈ encodeUtf8 text) : ∃ c ∈ text, c.toNat = b.toNat := by
  rw [encodeUtf8_ascii h, List.mem_map] at hb
  obtain ⟨c, hc, rfl⟩ := hb
  refine ⟨c, hc, ?_⟩
  have hlt : c.val.toNat < 0x80 := h c hc
  rw [UInt32.toNat_toUInt8, Nat.mod_eq_of_lt (by omega)]
  rfl

/-! ## Cutting at a separator -/

variable {α : Type} [DecidableEq α]

/-- What is before and after the first `sep`. -/
def splitFirst (sep : α) : List α → Option (List α × List α)
  | [] => none
  | a :: as =>
    if a = sep then some ([], as) else (splitFirst sep as).map fun p => (a :: p.1, p.2)

/-- One more item before the first line, or before what is left where no line is complete. -/
def beforeFirst (a : α) : List (List α) × List α → List (List α) × List α
  | ([], rest) => ([], a :: rest)
  | (line :: lines, rest) => ((a :: line) :: lines, rest)

/-- The lines that `sep` ends, and what is left. -/
def takeLines (sep : α) : List α → List (List α) × List α
  | [] => ([], [])
  | a :: as =>
    if a = sep then ([] :: (takeLines sep as).1, (takeLines sep as).2)
    else beforeFirst a (takeLines sep as)

theorem splitFirst_of_not_mem {sep : α} {as : List α} (h : sep ∉ as) (bs : List α) :
    splitFirst sep (as ++ sep :: bs) = some (as, bs) := by
  induction as with
  | nil => simp [splitFirst]
  | cons a as ih =>
    rw [List.mem_cons, not_or] at h
    rw [List.cons_append, splitFirst, if_neg (Ne.symm h.1), ih h.2]
    rfl

theorem eq_of_splitFirst {sep : α} {as line rest : List α}
    (h : splitFirst sep as = some (line, rest)) : as = line ++ sep :: rest ∧ sep ∉ line := by
  induction as generalizing line with
  | nil => cases h
  | cons a as ih =>
    rw [splitFirst] at h
    by_cases ha : a = sep
    · rw [if_pos ha, Option.some.injEq, Prod.mk.injEq] at h
      obtain ⟨rfl, rfl⟩ := h
      exact ⟨by rw [ha, List.nil_append], List.not_mem_nil⟩
    · rw [if_neg ha, Option.map_eq_some_iff] at h
      obtain ⟨⟨line', rest'⟩, h, heq⟩ := h
      rw [Prod.mk.injEq] at heq
      obtain ⟨rfl, rfl⟩ := heq
      obtain ⟨rfl, hline⟩ := ih h
      refine ⟨List.cons_append.symm, fun hmem => ?_⟩
      exact (List.mem_cons.mp hmem).elim (fun heq => ha heq.symm) hline

/-- A list is cut at its first separator in one way. -/
theorem cut_inj {sep : α} {as as' bs bs' : List α} (h : sep ∉ as) (h' : sep ∉ as')
    (heq : as ++ sep :: bs = as' ++ sep :: bs') : as = as' ∧ bs = bs' := by
  have hcut := splitFirst_of_not_mem h bs
  rw [heq, splitFirst_of_not_mem h' bs', Option.some.injEq, Prod.mk.injEq] at hcut
  exact ⟨hcut.1.symm, hcut.2.symm⟩

theorem splitFirst_eq_none {sep : α} {as : List α} (h : sep ∉ as) : splitFirst sep as = none := by
  induction as with
  | nil => rfl
  | cons a as ih =>
    rw [List.mem_cons, not_or] at h
    rw [splitFirst, if_neg (Ne.symm h.1), ih h.2]
    rfl

/-- While there is a separator, the loop cuts the first line off. -/
theorem takeLines_cut {sep : α} {as line rest : List α}
    (h : splitFirst sep as = some (line, rest)) :
    takeLines sep as = (line :: (takeLines sep rest).1, (takeLines sep rest).2) := by
  induction as generalizing line with
  | nil => cases h
  | cons a as ih =>
    rw [splitFirst] at h
    rw [takeLines]
    by_cases ha : a = sep
    · rw [if_pos ha, Option.some.injEq, Prod.mk.injEq] at h
      obtain ⟨rfl, rfl⟩ := h
      rw [if_pos ha]
    · rw [if_neg ha, Option.map_eq_some_iff] at h
      obtain ⟨⟨line', rest'⟩, h, heq⟩ := h
      rw [Prod.mk.injEq] at heq
      obtain ⟨rfl, rfl⟩ := heq
      rw [if_neg ha, ih h]
      rfl

/-- What is left has no complete line. -/
theorem takeLines_rest (sep : α) (as : List α) : (takeLines sep (takeLines sep as).2).1 = [] := by
  induction as with
  | nil => rfl
  | cons a as ih =>
    rw [takeLines]
    by_cases ha : a = sep
    · rw [if_pos ha]
      exact ih
    · rw [if_neg ha]
      cases htake : takeLines sep as with
      | mk lines rest =>
        rw [htake] at ih
        cases lines with
        | nil =>
          show (takeLines sep (a :: rest)).1 = []
          have hrest : takeLines sep rest = ([], (takeLines sep rest).2) := Prod.ext ih rfl
          rw [takeLines, if_neg ha, hrest]
          rfl
        | cons line lines => exact ih

theorem takeLines_append (sep : α) (as bs : List α) :
    takeLines sep (as ++ bs) =
      ((takeLines sep as).1 ++ (takeLines sep ((takeLines sep as).2 ++ bs)).1,
        (takeLines sep ((takeLines sep as).2 ++ bs)).2) := by
  induction as with
  | nil => rfl
  | cons a as ih =>
    rw [List.cons_append, takeLines, takeLines, ih]
    by_cases ha : a = sep
    · simp only [if_pos ha, List.cons_append]
    · simp only [if_neg ha]
      cases htake : takeLines sep as with
      | mk lines rest =>
        cases lines with
        | nil =>
          -- no line is complete yet: `a` stands before the rest
          show beforeFirst a (takeLines sep (rest ++ bs)) = takeLines sep (a :: (rest ++ bs))
          rw [takeLines, if_neg ha]
        | cons line lines => rfl

end Lib
