/-
  `loads` inverts `dumps` (`loads_dumps`), and no cut of an object's text is read as
  anything: not a proper prefix (`loads_proper_prefix`), and not a prefix followed by another
  object's text (`loads_glued`).

  All three rest on the automaton: a text is read by reading its parts in turn, a value's
  text takes the parser from a place that waits for a value to the place after it
  (`exec_dumps`), and after the first character of an object the parser never waits for a
  value at the outermost level (`Inside`).
-/
import MiniDb.Lib.Json
import Mathlib.Tactic.IntervalCases

namespace Lib.Json

/-! ## Numbers -/

theorem head_toDigits_ne_zero {n : Nat} (hn : 0 < n) (cs : List Char) :
    Nat.toDigits 10 n ≠ '0' :: cs := by
  induction n using Nat.strongRecOn generalizing cs with
  | ind n ih =>
    by_cases h : n < 10
    · rw [Nat.toDigits_of_lt_base h]
      intro he
      have : n = 0 := Nat.digitChar_eq_zero.mp (List.cons.inj he).1
      omega
    · rw [Nat.toDigits_of_base_le (by decide) (by omega)]
      intro he
      cases hd : Nat.toDigits 10 (n / 10) with
      | nil => exact Nat.toDigits_ne_nil hd
      | cons c ds =>
        rw [hd, List.cons_append, List.cons.injEq] at he
        exact ih (n / 10) (by omega) (by omega) ds (by rw [hd, he.1])

theorem natOfText_of_head {c : Char} {cs : List Char} (hc : c ≠ '0') :
    natOfText (c :: cs) =
      if (c :: cs).all Char.isDigit then some (Nat.ofDigitChars 10 (c :: cs) 0) else none := by
  rw [natOfText.eq_def]
  split
  · contradiction
  · simp_all
  · simp_all

theorem natOfText_toDigits (n : Nat) : natOfText (Nat.toDigits 10 n) = some n := by
  rcases Nat.eq_zero_or_pos n with rfl | hn
  · rfl
  · have hof := Nat.ofDigitChars_toDigits (b := 10) (n := n) (by decide) (by decide)
    have hall : (Nat.toDigits 10 n).all Char.isDigit := by
      rw [List.all_eq_true]
      exact fun c hc => Nat.isDigit_of_mem_toDigits (by decide) (by decide) hc
    have hne := head_toDigits_ne_zero hn
    cases hd : Nat.toDigits 10 n with
    | nil => exact absurd hd Nat.toDigits_ne_nil
    | cons c cs =>
      have hc : c ≠ '0' := fun h => hne cs (by rw [hd, h])
      rw [hd] at hof hall
      rw [natOfText_of_head hc, if_pos hall, hof]

theorem isDigit_of_mem_toDigits {n : Nat} {c : Char} (h : c ∈ Nat.toDigits 10 n) : c.isDigit :=
  Nat.isDigit_of_mem_toDigits (by decide) (by decide) h

theorem intOfText_intText (n : Int) : intOfText (intText n) = some n := by
  cases n with
  | ofNat n =>
    have h : intOfText (Nat.toDigits 10 n) =
        (natOfText (Nat.toDigits 10 n)).map fun n => (n : Int) := by
      rw [intOfText.eq_def]
      split
      · rename_i cs hcs
        have hdigit : ('-' : Char).isDigit :=
          isDigit_of_mem_toDigits (by rw [hcs]; exact List.mem_cons_self)
        exact absurd hdigit (by decide)
      · rfl
    simp only [intText, h, natOfText_toDigits]
    rfl
  | negSucc n =>
    simp only [intText, intOfText, natOfText_toDigits]
    rfl

theorem mem_intText {n : Int} {c : Char} (h : c ∈ intText n) : c.isDigit ∨ c = '-' := by
  cases n with
  | ofNat n => exact Or.inl (isDigit_of_mem_toDigits h)
  | negSucc n =>
    rcases List.mem_cons.mp h with h | h
    · exact Or.inr h
    · exact Or.inl (isDigit_of_mem_toDigits h)

theorem not_mem_intText {n : Int} {c : Char} (hd : c.isDigit = false) (hc : c ≠ '-') :
    c ∉ intText n := by
  intro h
  rcases mem_intText h with h | h
  · rw [hd] at h; exact absurd h (by decide)
  · exact hc h

theorem atomValue_intText (F : FloatText) (n : Int) : atomValue F (intText n) = some (.int n) := by
  have hword : ∀ w : List Char, (∃ c ∈ w, c.isDigit = false ∧ c ≠ '-') → intText n ≠ w := by
    rintro w ⟨c, hc, hd, hm⟩ he
    exact not_mem_intText hd hm (he ▸ hc)
  have h1 := hword ['n', 'u', 'l', 'l'] ⟨'n', by decide⟩
  have h2 := hword ['t', 'r', 'u', 'e'] ⟨'t', by decide⟩
  have h3 := hword ['f', 'a', 'l', 's', 'e'] ⟨'f', by decide⟩
  have h4 : ¬ ('.' ∈ intText n ∨ 'e' ∈ intText n ∨ 'E' ∈ intText n) := by
    rintro (h | h | h) <;> exact not_mem_intText (by decide) (by decide) h
  rw [atomValue, if_neg h1, if_neg h2, if_neg h3, if_neg h4, intOfText_intText]
  rfl

theorem atomValue_repr (F : FloatText) {x : ℚ} (hx : F.isFloat x) :
    atomValue F (F.repr x) = some (.float x) := by
  have hword : ∀ w : List Char,
      (∃ c ∈ w, ¬ (c.isDigit ∨ c = '+' ∨ c = '-' ∨ c = '.' ∨ c = 'e')) → F.repr x ≠ w := by
    rintro w ⟨c, hc, hn⟩ he
    exact hn (F.repr_chars x hx c (he ▸ hc))
  have h1 := hword ['n', 'u', 'l', 'l'] ⟨'n', by decide⟩
  have h2 := hword ['t', 'r', 'u', 'e'] ⟨'t', by decide⟩
  have h3 := hword ['f', 'a', 'l', 's', 'e'] ⟨'f', by decide⟩
  have h4 : '.' ∈ F.repr x ∨ 'e' ∈ F.repr x ∨ 'E' ∈ F.repr x :=
    (F.repr_mark x hx).imp_right Or.inl
  rw [atomValue, if_neg h1, if_neg h2, if_neg h3, if_pos h4, F.parse_repr x hx]
  rfl

/-! ## Strings -/

theorem hexVal_digitChar {d : Nat} (h : d < 16) : hexVal (Nat.digitChar d) = some d := by
  interval_cases d <;> decide

theorem exec_unicodeEscape (F : FloatText) {n : Nat} (hn : n < 0x10000) (acc : List Nat)
    (p : Parser) :
    exec (readChar F) ⟨.str acc, p⟩ (unicodeEscape n) = some ⟨.str (n :: acc), p⟩ := by
  have h1 := hexVal_digitChar (Nat.mod_lt (n / 4096) (by decide : 0 < 16))
  have h2 := hexVal_digitChar (Nat.mod_lt (n / 256) (by decide : 0 < 16))
  have h3 := hexVal_digitChar (Nat.mod_lt (n / 16) (by decide : 0 < 16))
  have h4 := hexVal_digitChar (Nat.mod_lt n (by decide : 0 < 16))
  have hv :
      16 * (16 * (16 * (16 * 0 + n / 4096 % 16) + n / 256 % 16) + n / 16 % 16) + n % 16 = n := by
    omega
  simp [unicodeEscape, exec, readChar, h1, h2, h3, h4]
  omega

theorem toNat_range (c : Char) :
    c.toNat < 0xD800 ∨ 0xDFFF < c.toNat ∧ c.toNat < 0x110000 := by
  have hv := c.valid
  simp only [UInt32.isValidChar, Nat.isValidChar] at hv
  exact hv

theorem units_lt {c : Char} {u : Nat} (h : u ∈ units c) : u < 0x10000 := by
  have hc := toNat_range c
  unfold units at h
  split at h
  · rw [List.mem_singleton.mp h]; assumption
  · simp only [List.mem_cons, List.not_mem_nil, or_false] at h
    rcases h with h | h <;> omega

theorem exec_unitEscapes (F : FloatText) (us : List Nat) (hus : ∀ u ∈ us, u < 0x10000)
    (acc : List Nat) (p : Parser) :
    exec (readChar F) ⟨.str acc, p⟩ (us.flatMap unicodeEscape) =
      some ⟨.str (us.reverse ++ acc), p⟩ := by
  induction us generalizing acc with
  | nil => rfl
  | cons u us ih =>
    rw [List.flatMap_cons, exec_append]
    refine ⟨_, exec_unicodeEscape F (hus u List.mem_cons_self) acc p, ?_⟩
    rw [ih fun v hv => hus v (List.mem_cons_of_mem u hv)]
    simp

/-- The characters that have an escape of two characters, with the second one. -/
def namedEscapes : List (Char × Char) :=
  [('"', '"'), ('\\', '\\'), ('\n', 'n'), ('\r', 'r'), ('\t', 't'), ('\x08', 'b'), ('\x0c', 'f')]

theorem escapeChar_named : ∀ e ∈ namedEscapes, escapeChar e.1 = ['\\', e.2] := by
  decide

/-- Any other character stands for itself when it is printable, and is a number otherwise. -/
theorem escapeChar_unnamed {c : Char} (h : ∀ e ∈ namedEscapes, c ≠ e.1) :
    escapeChar c =
      if 0x20 ≤ c.toNat ∧ c.toNat < 0x7f then [c] else (units c).flatMap unicodeEscape := by
  simp only [namedEscapes, List.forall_mem_cons] at h
  obtain ⟨hquote, hback, hn, hr, ht, hb, hf, -⟩ := h
  rw [escapeChar, if_neg hquote, if_neg hback, if_neg hn, if_neg hr, if_neg ht, if_neg hb,
    if_neg hf]

theorem exec_namedEscapes (F : FloatText) (acc : List Nat) (p : Parser) :
    ∀ e ∈ namedEscapes, exec (readChar F) ⟨.str acc, p⟩ ['\\', e.2] =
      some ⟨.str ((units e.1).reverse ++ acc), p⟩ := by
  simp only [namedEscapes, List.forall_mem_cons]
  exact ⟨rfl, rfl, rfl, rfl, rfl, rfl, rfl, List.forall_mem_nil _⟩

theorem exec_escapeChar (F : FloatText) (c : Char) (acc : List Nat) (p : Parser) :
    exec (readChar F) ⟨.str acc, p⟩ (escapeChar c) =
      some ⟨.str ((units c).reverse ++ acc), p⟩ := by
  by_cases hnamed : ∃ e ∈ namedEscapes, c = e.1
  · obtain ⟨e, he, rfl⟩ := hnamed
    rw [escapeChar_named e he]
    exact exec_namedEscapes F acc p e he
  · have hne : ∀ e ∈ namedEscapes, c ≠ e.1 := fun e he hc => hnamed ⟨e, he, hc⟩
    rw [escapeChar_unnamed hne]
    split
    · rename_i hr
      have hquote : c ≠ '"' := hne ('"', '"') (by decide)
      have hback : c ≠ '\\' := hne ('\\', '\\') (by decide)
      have hu : units c = [c.toNat] := by
        unfold units
        rw [if_pos (by omega)]
      have hr' : ¬ c.toNat < 0x20 := by omega
      simp [exec, readChar, hquote, hback, hr', hu]
    · exact exec_unitEscapes F (units c) (fun u hu => units_lt hu) acc p

theorem exec_escapeChars (F : FloatText) (cs : List Char) (acc : List Nat) (p : Parser) :
    exec (readChar F) ⟨.str acc, p⟩ (cs.flatMap escapeChar) =
      some ⟨.str ((cs.flatMap units).reverse ++ acc), p⟩ := by
  induction cs generalizing acc with
  | nil => rfl
  | cons c cs ih =>
    rw [List.flatMap_cons, exec_append]
    refine ⟨_, exec_escapeChar F c acc p, ?_⟩
    rw [ih]
    simp

theorem decodeUnits_units (c : Char) (us : List Nat) :
    decodeUnits (units c ++ us) = (decodeUnits us).map (c :: ·) := by
  have hc := toNat_range c
  have hof : Char.ofNat c.toNat = c := Char.ofNat_toNat c
  unfold units
  split
  · have hn : ¬ (0xD800 ≤ c.toNat ∧ c.toNat < 0xE000) := by omega
    cases us with
    | nil => simp only [List.append_nil, decodeUnits, if_neg hn, hof, Option.map_some]
    | cons u us => simp only [List.cons_append, List.nil_append, decodeUnits, if_neg hn, hof]
  · have h1 : 0xD800 ≤ 0xD800 + (c.toNat - 0x10000) / 0x400 ∧
        0xD800 + (c.toNat - 0x10000) / 0x400 < 0xE000 := by omega
    have h2 : 0xD800 + (c.toNat - 0x10000) / 0x400 < 0xDC00 ∧
        0xDC00 ≤ 0xDC00 + (c.toNat - 0x10000) % 0x400 ∧
        0xDC00 + (c.toNat - 0x10000) % 0x400 < 0xE000 := by omega
    have h3 : 0x10000 + (0xD800 + (c.toNat - 0x10000) / 0x400 - 0xD800) * 0x400 +
        (0xDC00 + (c.toNat - 0x10000) % 0x400 - 0xDC00) = c.toNat := by omega
    simp only [List.cons_append, List.nil_append, decodeUnits, if_pos h1, if_pos h2, h3, hof]

theorem decodeUnits_flatMap_units (cs : List Char) :
    decodeUnits (cs.flatMap units) = some cs := by
  induction cs with
  | nil => rfl
  | cons c cs ih => rw [List.flatMap_cons, decodeUnits_units, ih, Option.map_some]

/-- A string's text hands the string to the parser. -/
theorem exec_strText (F : FloatText) (s : String) {p p' : Parser}
    (hmode : ∀ v, p.mode ≠ .done v) (hp : p.push (.str s) = some p') :
    exec (readChar F) ⟨.idle, p⟩ (strText s) = some ⟨.idle, p'⟩ := by
  have hstart : readChar F ⟨.idle, p⟩ '"' = some ⟨.str [], p⟩ := by
    cases hm : p.mode with
    | done v => exact absurd hm (hmode v)
    | _ => simp [readChar, stepIdle, isSpace, hm]
  have hclose : readChar F ⟨.str ((s.toList.flatMap units).reverse ++ []), p⟩ '"' =
      some ⟨.idle, p'⟩ := by
    simp [readChar, decodeUnits_flatMap_units, hp]
  unfold strText
  rw [List.cons_append, exec_cons]
  refine ⟨_, hstart, ?_⟩
  rw [exec_append]
  exact ⟨_, exec_escapeChars F s.toList [] p, by simp only [exec, hclose, Option.bind_some]⟩

/-! ## Atoms -/

theorem isAtomChar_of_isDigit {c : Char} (h : c.isDigit) : isAtomChar c := by
  simp [isAtomChar, Char.isAlphanum, h]

theorem not_isSpace_of_isAtomChar {c : Char} (h : isAtomChar c) : isSpace c = false := by
  rw [Bool.eq_false_iff]
  intro hs
  simp only [isSpace, Bool.or_eq_true, decide_eq_true_eq] at hs
  rcases hs with ((rfl | rfl) | rfl) | rfl <;> exact absurd h (by decide)

theorem exec_atomTail (F : FloatText) (cs : List Char) (hcs : ∀ c ∈ cs, isAtomChar c)
    (acc : List Char) (p : Parser) :
    exec (readChar F) ⟨.atom acc, p⟩ cs = some ⟨.atom (cs.reverse ++ acc), p⟩ := by
  induction cs generalizing acc with
  | nil => rfl
  | cons c cs ih =>
    have hc : readChar F ⟨.atom acc, p⟩ c = some ⟨.atom (c :: acc), p⟩ := by
      simp [readChar, hcs c List.mem_cons_self]
    rw [exec_cons]
    refine ⟨_, hc, ?_⟩
    rw [ih fun d hd => hcs d (List.mem_cons_of_mem c hd)]
    simp

theorem exec_atom (F : FloatText) {cs : List Char} (hne : cs ≠ [])
    (hcs : ∀ c ∈ cs, isAtomChar c) {p : Parser} (hmode : ∀ v, p.mode ≠ .done v) :
    exec (readChar F) ⟨.idle, p⟩ cs = some ⟨.atom cs.reverse, p⟩ := by
  cases cs with
  | nil => exact absurd rfl hne
  | cons c cs =>
    have hc := hcs c List.mem_cons_self
    have hq : c ≠ '"' := by rintro rfl; exact absurd hc (by decide)
    have hstart : readChar F ⟨.idle, p⟩ c = some ⟨.atom [c], p⟩ := by
      cases hm : p.mode with
      | done v => exact absurd hm (hmode v)
      | _ => simp [readChar, stepIdle, not_isSpace_of_isAtomChar hc, hm, hq, hc]
    rw [exec_cons]
    refine ⟨_, hstart, ?_⟩
    rw [exec_atomTail F cs fun d hd => hcs d (List.mem_cons_of_mem c hd)]
    simp

theorem intText_ne_nil (n : Int) : intText n ≠ [] := by
  cases n with
  | ofNat n => exact Nat.toDigits_ne_nil
  | negSucc n => exact List.cons_ne_nil _ _

theorem isAtomChar_of_mem_intText {n : Int} {c : Char} (h : c ∈ intText n) : isAtomChar c := by
  rcases mem_intText h with h | rfl
  · exact isAtomChar_of_isDigit h
  · decide

theorem isAtomChar_of_mem_repr (F : FloatText) {x : ℚ} (hx : F.isFloat x) {c : Char}
    (h : c ∈ F.repr x) : isAtomChar c := by
  rcases F.repr_chars x hx c h with h | rfl | rfl | rfl | rfl
  · exact isAtomChar_of_isDigit h
  all_goals decide

theorem repr_ne_nil (F : FloatText) {x : ℚ} (hx : F.isFloat x) : F.repr x ≠ [] := by
  rcases F.repr_mark x hx with h | h <;> exact List.ne_nil_of_mem h

/-! ## Values -/

/-- The parser waits for a value. -/
def Ready (p : Parser) : Prop := p.mode = .value ∨ p.mode = .valueOrEnd

theorem Ready.not_done {p : Parser} (h : Ready p) (v : Json) : p.mode ≠ .done v := by
  rcases h with h | h <;> simp [h]

theorem Ready.push {p : Parser} (h : Ready p) {t : Token} (ht : t ≠ .rbrack) :
    p.push t = Parser.pushValue p.stack t := by
  obtain ⟨mode, st⟩ := p
  rcases h with h | h
  · simp only at h; subst h; rfl
  · simp only at h; subst h
    cases t with
    | rbrack => exact absurd rfl ht
    | _ => rfl

/-- A character that ends an atom acts on the parser as it stands after the atom. -/
theorem readChar_of_flush (F : FloatText) {s : State} {p : Parser} (h : flush F s = some p)
    {c : Char} (hc : isAtomChar c = false) : readChar F s c = stepIdle p c := by
  obtain ⟨lex, q⟩ := s
  cases lex with
  | idle =>
    simp only [flush, Option.some.injEq] at h
    subst h
    rfl
  | atom acc =>
    simp only [readChar, hc, h]
    rfl
  | str acc => simp [flush] at h
  | esc acc => simp [flush] at h
  | uni acc seen value => simp [flush] at h

theorem stepIdle_punct {p p' : Parser} {c : Char} {t : Token} (hsp : isSpace c = false)
    (hat : isAtomChar c = false) (hq : c ≠ '"') (ht : punct c = some t)
    (hmode : ∀ v, p.mode ≠ .done v) (hp : p.push t = some p') :
    stepIdle p c = some ⟨.idle, p'⟩ := by
  cases hm : p.mode with
  | done v => exact absurd hm (hmode v)
  | _ => simp [stepIdle, hsp, hat, hq, ht, hp, hm]

theorem stepIdle_space (p : Parser) : stepIdle p ' ' = some ⟨.idle, p⟩ := by
  simp [stepIdle, isSpace]

/-- A scalar's text leaves the parser after the scalar, once the atom is flushed. -/
theorem exec_scalar (F : FloatText) {cs : List Char} {v : Json} (hne : cs ≠ [])
    (hcs : ∀ c ∈ cs, isAtomChar c) (hv : atomValue F cs = some v) {p : Parser} (hp : Ready p) :
    ∃ s, exec (readChar F) ⟨.idle, p⟩ cs = some s ∧ flush F s = some (complete v p.stack) := by
  have hpush : p.push (.scalar v) = some (complete v p.stack) := by
    rw [hp.push (by simp)]
    rfl
  refine ⟨_, exec_atom F hne hcs hp.not_done, ?_⟩
  simp only [flush, List.reverse_reverse, hv, Option.bind_some, hpush]

/-- ", " between two items or fields, then on with `rest`. -/
theorem exec_comma (F : FloatText) {s : State} {p p' : Parser} (hs : flush F s = some p)
    (hmode : ∀ v, p.mode ≠ .done v) (hp : p.push .comma = some p') (rest : List Char) {t : State} :
    exec (readChar F) s (',' :: ' ' :: rest) = some t ↔
      exec (readChar F) ⟨.idle, p'⟩ rest = some t := by
  have h1 : readChar F s ',' = some ⟨.idle, p'⟩ := by
    rw [readChar_of_flush F hs (by decide)]
    exact stepIdle_punct (by decide) (by decide) (by decide) rfl hmode hp
  have h2 : readChar F ⟨.idle, p'⟩ ' ' = some ⟨.idle, p'⟩ := stepIdle_space p'
  rw [exec, h1, Option.bind_some, exec, h2, Option.bind_some]

/-- A field's name and ": ", then on with `rest` where the field's value is expected. -/
theorem exec_fieldName (F : FloatText) {p : Parser} {fields : List (String × Json)} (k : String)
    (hmode : ∀ v, p.mode ≠ .done v) (hp : p.push (.str k) = some ⟨.colon fields k, p.stack⟩)
    (rest : List Char) {t : State} :
    exec (readChar F) ⟨.idle, p⟩ (strText k ++ ':' :: ' ' :: rest) = some t ↔
      exec (readChar F) ⟨.idle, ⟨.value, .field fields k :: p.stack⟩⟩ rest = some t := by
  have h1 := exec_strText F k hmode hp
  have h2 : readChar F ⟨.idle, ⟨.colon fields k, p.stack⟩⟩ ':' =
      some ⟨.idle, ⟨.value, .field fields k :: p.stack⟩⟩ :=
    stepIdle_punct (by decide) (by decide) (by decide) rfl (fun _ => by simp) rfl
  have h3 : readChar F ⟨.idle, ⟨.value, .field fields k :: p.stack⟩⟩ ' ' =
      some ⟨.idle, ⟨.value, .field fields k :: p.stack⟩⟩ := stepIdle_space _
  have hrest : exec (readChar F) ⟨.idle, ⟨.colon fields k, p.stack⟩⟩ (':' :: ' ' :: rest) =
      exec (readChar F) ⟨.idle, ⟨.value, .field fields k :: p.stack⟩⟩ rest := by
    rw [exec, h2, Option.bind_some, exec, h3, Option.bind_some]
  rw [exec_append]
  constructor
  · rintro ⟨s, hs, ht⟩
    rw [h1, Option.some.injEq] at hs
    rw [← hs, hrest] at ht
    exact ht
  · intro ht
    exact ⟨_, h1, hrest ▸ ht⟩

mutual

/-- The text of a value takes a parser that waits for one to the place after it. -/
theorem exec_dumps (F : FloatText) : ∀ (v : Json), Printable F v → ∀ {p : Parser}, Ready p →
    ∃ s, exec (readChar F) ⟨.idle, p⟩ (dumps F v) = some s ∧
      flush F s = some (complete v p.stack)
  | .null, _, p, hp =>
    exec_scalar F (List.cons_ne_nil _ _) (List.all_eq_true.mp rfl) (by rfl) hp
  | .bool true, _, p, hp =>
    exec_scalar F (List.cons_ne_nil _ _) (List.all_eq_true.mp rfl) (by rfl) hp
  | .bool false, _, p, hp =>
    exec_scalar F (List.cons_ne_nil _ _) (List.all_eq_true.mp rfl) (by rfl) hp
  | .int n, _, p, hp =>
    exec_scalar F (intText_ne_nil n) (fun _ h => isAtomChar_of_mem_intText h)
      (atomValue_intText F n) hp
  | .float x, hx, p, hp =>
    have hx : F.isFloat x := by simpa only [Printable] using hx
    exec_scalar F (repr_ne_nil F hx) (fun _ h => isAtomChar_of_mem_repr F hx h)
      (atomValue_repr F hx) hp
  | .str s, _, p, hp =>
    ⟨_, exec_strText F s hp.not_done (by rw [hp.push (by simp)]; rfl), rfl⟩
  | .arr [], _, p, hp => by
    have h1 : readChar F ⟨.idle, p⟩ '[' = some ⟨.idle, ⟨.valueOrEnd, .arr [] :: p.stack⟩⟩ :=
      stepIdle_punct (by decide) (by decide) (by decide) rfl hp.not_done
        (by rw [hp.push (by simp)]; rfl)
    have h2 : readChar F ⟨.idle, ⟨.valueOrEnd, .arr [] :: p.stack⟩⟩ ']' =
        some ⟨.idle, complete (.arr []) p.stack⟩ :=
      stepIdle_punct (by decide) (by decide) (by decide) rfl (fun _ => by simp) rfl
    refine ⟨⟨.idle, complete (.arr []) p.stack⟩, ?_, rfl⟩
    simp only [dumps, exec, h1, h2, Option.bind_some]
  | .arr (v :: vs), hv, p, hp => by
    simp only [Printable, PrintableItems] at hv
    have h1 : readChar F ⟨.idle, p⟩ '[' = some ⟨.idle, ⟨.valueOrEnd, .arr [] :: p.stack⟩⟩ :=
      stepIdle_punct (by decide) (by decide) (by decide) rfl hp.not_done
        (by rw [hp.push (by simp)]; rfl)
    obtain ⟨s, hs, hf⟩ := exec_dumps F v hv.1 (p := ⟨.valueOrEnd, .arr [] :: p.stack⟩) (Or.inr rfl)
    have h2 := exec_dumpsItems F vs hv.2 hf
    refine ⟨⟨.idle, complete (.arr (v :: vs)) p.stack⟩, ?_, rfl⟩
    rw [dumps, exec_cons]
    exact ⟨_, h1, exec_append.mpr ⟨s, hs, h2⟩⟩
  | .obj [], _, p, hp => by
    have h1 : readChar F ⟨.idle, p⟩ '{' = some ⟨.idle, ⟨.keyOrEnd, p.stack⟩⟩ :=
      stepIdle_punct (by decide) (by decide) (by decide) rfl hp.not_done
        (by rw [hp.push (by simp)]; rfl)
    have h2 : readChar F ⟨.idle, ⟨.keyOrEnd, p.stack⟩⟩ '}' =
        some ⟨.idle, complete (.obj []) p.stack⟩ :=
      stepIdle_punct (by decide) (by decide) (by decide) rfl (fun _ => by simp) rfl
    refine ⟨⟨.idle, complete (.obj []) p.stack⟩, ?_, rfl⟩
    simp only [dumps, exec, h1, h2, Option.bind_some]
  | .obj ((k, v) :: fs), hv, p, hp => by
    simp only [Printable, PrintableFields] at hv
    have h1 : readChar F ⟨.idle, p⟩ '{' = some ⟨.idle, ⟨.keyOrEnd, p.stack⟩⟩ :=
      stepIdle_punct (by decide) (by decide) (by decide) rfl hp.not_done
        (by rw [hp.push (by simp)]; rfl)
    obtain ⟨s, hs, hf⟩ :=
      exec_dumps F v hv.1 (p := ⟨.value, .field [] k :: p.stack⟩) (Or.inl rfl)
    have h2 := exec_dumpsFields F fs hv.2 hf
    refine ⟨⟨.idle, complete (.obj ((k, v) :: fs)) p.stack⟩, ?_, rfl⟩
    rw [dumps, exec_cons]
    refine ⟨_, h1, ?_⟩
    rw [exec_fieldName F k (fun _ => by simp) rfl]
    exact exec_append.mpr ⟨s, hs, h2⟩

/-- The items after the first close the array. -/
theorem exec_dumpsItems (F : FloatText) : ∀ (vs : List Json), PrintableItems F vs →
    ∀ {s : State} {items : List Json} {st : List Frame},
      flush F s = some ⟨.arrNext items, st⟩ →
      exec (readChar F) s (dumpsItems F vs) =
        some ⟨.idle, complete (.arr (items.reverse ++ vs)) st⟩
  | [], _, s, items, st, hs => by
    have h : readChar F s ']' = some ⟨.idle, complete (.arr items.reverse) st⟩ := by
      rw [readChar_of_flush F hs (by decide)]
      exact stepIdle_punct (by decide) (by decide) (by decide) rfl (fun _ => by simp) rfl
    simp only [dumpsItems, exec, h, Option.bind_some, List.append_nil]
  | v :: vs, hv, s, items, st, hs => by
    simp only [PrintableItems] at hv
    obtain ⟨s', hs', hf⟩ :=
      exec_dumps F v hv.1 (p := ⟨.value, .arr items :: st⟩) (Or.inl rfl)
    have h := exec_dumpsItems F vs hv.2 hf
    rw [List.reverse_cons, List.append_assoc, List.singleton_append] at h
    rw [dumpsItems, exec_comma F hs (fun _ => by simp) rfl]
    exact exec_append.mpr ⟨s', hs', h⟩

/-- The fields after the first close the object. -/
theorem exec_dumpsFields (F : FloatText) : ∀ (fs : List (String × Json)), PrintableFields F fs →
    ∀ {s : State} {fields : List (String × Json)} {st : List Frame},
      flush F s = some ⟨.objNext fields, st⟩ →
      exec (readChar F) s (dumpsFields F fs) =
        some ⟨.idle, complete (.obj (fields.reverse ++ fs)) st⟩
  | [], _, s, fields, st, hs => by
    have h : readChar F s '}' = some ⟨.idle, complete (.obj fields.reverse) st⟩ := by
      rw [readChar_of_flush F hs (by decide)]
      exact stepIdle_punct (by decide) (by decide) (by decide) rfl (fun _ => by simp) rfl
    simp only [dumpsFields, exec, h, Option.bind_some, List.append_nil]
  | (k, v) :: fs, hv, s, fields, st, hs => by
    simp only [PrintableFields] at hv
    obtain ⟨s', hs', hf⟩ :=
      exec_dumps F v hv.1 (p := ⟨.value, .field fields k :: st⟩) (Or.inl rfl)
    have h := exec_dumpsFields F fs hv.2 hf
    rw [List.reverse_cons, List.append_assoc, List.singleton_append] at h
    rw [dumpsFields, exec_comma F hs (fun _ => by simp) rfl,
      exec_fieldName F k (fun _ => by simp) rfl]
    exact exec_append.mpr ⟨s', hs', h⟩

end

/-- **Round trip.** -/
theorem loads_dumps (F : FloatText) {v : Json} (hv : Printable F v) :
    loads F (dumps F v) = some v := by
  obtain ⟨s, hs, hf⟩ := exec_dumps F v hv (p := ⟨.value, []⟩) (Or.inl rfl)
  simp only [loads, start, hs, Option.bind_some, accepted, hf]
  rfl

/-! ## Cut texts -/

/-- The parser does not wait for a value at the outermost level. -/
def Inside (p : Parser) : Prop := Ready p → p.stack ≠ []

theorem not_ready_complete (v : Json) (st : List Frame) : ¬ Ready (complete v st) := by
  cases st with
  | nil => rintro (h | h) <;> simp [complete] at h
  | cons f st => cases f <;> rintro (h | h) <;> simp [complete] at h

theorem inside_complete (v : Json) (st : List Frame) : Inside (complete v st) :=
  fun h => absurd h (not_ready_complete v st)

theorem inside_pushValue {st : List Frame} {t : Token} {p : Parser}
    (h : Parser.pushValue st t = some p) : Inside p := by
  cases t with
  | lbrack => simp only [Parser.pushValue, Option.some.injEq] at h; subst h; intro; simp
  | lbrace =>
    simp only [Parser.pushValue, Option.some.injEq] at h
    subst h
    rintro (h | h) <;> simp at h
  | str s => simp only [Parser.pushValue, Option.some.injEq] at h; exact h ▸ inside_complete _ _
  | scalar v => simp only [Parser.pushValue, Option.some.injEq] at h; exact h ▸ inside_complete _ _
  | rbrack => simp [Parser.pushValue] at h
  | rbrace => simp [Parser.pushValue] at h
  | comma => simp [Parser.pushValue] at h
  | colon => simp [Parser.pushValue] at h

/-- Whatever a token is pushed into, the result does not wait at the outermost level. -/
theorem inside_push {p p' : Parser} {t : Token} (h : p.push t = some p') : Inside p' := by
  unfold Parser.push at h
  split at h
  · exact inside_pushValue h
  · rw [Option.some.injEq] at h; exact h ▸ inside_complete _ _
  · exact inside_pushValue h
  · rw [Option.some.injEq] at h; subst h; rintro (h | h) <;> simp at h
  · rw [Option.some.injEq] at h; exact h ▸ inside_complete _ _
  · rw [Option.some.injEq] at h; subst h; rintro (h | h) <;> simp at h
  · rw [Option.some.injEq] at h; subst h; intro; simp
  · rw [Option.some.injEq] at h; subst h; intro; simp
  · rw [Option.some.injEq] at h; exact h ▸ inside_complete _ _
  · rw [Option.some.injEq] at h; subst h; rintro (h | h) <;> simp at h
  · rw [Option.some.injEq] at h; exact h ▸ inside_complete _ _
  · cases h

/-- The tokens that reading `c` can hand to the parser. -/
inductive Yields (F : FloatText) (c : Char) : Token → Prop where
  | punct {t : Token} (h : punct c = some t) : Yields F c t
  | str (s : String) : Yields F c (.str s)
  | scalar {cs : List Char} {v : Json} (h : atomValue F cs = some v) : Yields F c (.scalar v)

/-- What pushing the tokens of `c` preserves, reading `c` preserves. -/
theorem parser_readChar {F : FloatText} {c : Char} {P : Parser → Prop}
    (hpush : ∀ p t p', P p → Yields F c t → p.push t = some p' → P p') {s s' : State}
    (hs : P s.parser) (h : readChar F s c = some s') : P s'.parser := by
  have hidle : ∀ {p : Parser} {s : State}, P p → stepIdle p c = some s → P s.parser := by
    intro p s hp h
    unfold stepIdle at h
    split at h
    · rw [Option.some.injEq] at h; exact h ▸ hp
    split at h
    · cases h
    split at h
    · rw [Option.some.injEq] at h; exact h ▸ hp
    split at h
    · rw [Option.some.injEq] at h; exact h ▸ hp
    · obtain ⟨t, htoken, ht⟩ := Option.bind_eq_some_iff.mp h
      obtain ⟨p', hp', rfl⟩ := Option.map_eq_some_iff.mp ht
      exact hpush p t p' hp (.punct htoken) hp'
  have hflush : ∀ {p : Parser}, flush F s = some p → P p := by
    intro p h
    unfold flush at h
    split at h
    · rw [Option.some.injEq] at h; exact h ▸ hs
    · obtain ⟨v, hvalue, hv⟩ := Option.bind_eq_some_iff.mp h
      exact hpush _ _ _ hs (.scalar hvalue) hv
    · cases h
  unfold readChar at h
  split at h
  · exact hidle hs h
  · split at h
    · rw [Option.some.injEq] at h; exact h ▸ hs
    · obtain ⟨p, hp, hstep⟩ := Option.bind_eq_some_iff.mp h
      exact hidle (hflush hp) hstep
  · split at h
    · obtain ⟨cs, _, hcs⟩ := Option.bind_eq_some_iff.mp h
      obtain ⟨p', hp', rfl⟩ := Option.map_eq_some_iff.mp hcs
      exact hpush _ _ _ hs (.str _) hp'
    split at h
    · rw [Option.some.injEq] at h; exact h ▸ hs
    split at h
    · cases h
    · rw [Option.some.injEq] at h; exact h ▸ hs
  · split at h
    · rw [Option.some.injEq] at h; exact h ▸ hs
    · obtain ⟨u, _, rfl⟩ := Option.map_eq_some_iff.mp h
      exact hs
  · obtain ⟨d, _, hd⟩ := Option.map_eq_some_iff.mp h
    split at hd <;> exact hd ▸ hs

theorem inside_exec {F : FloatText} {s s' : State} {cs : List Char} (hs : Inside s.parser)
    (h : exec (readChar F) s cs = some s') : Inside s'.parser :=
  exec_inv (fun _ _ _ hi hr => parser_readChar (fun _ _ _ _ _ hp => inside_push hp) hi hr) hs h

/-- A scalar is complete inside a container, or alone at the outermost level. -/
theorem push_scalar {p p' : Parser} {v : Json} (h : p.push (.scalar v) = some p') :
    Ready p ∧ p' = complete v p.stack := by
  obtain ⟨mode, st⟩ := p
  cases mode with
  | value =>
    simp only [Parser.push, Parser.pushValue, Option.some.injEq] at h
    exact ⟨Or.inl rfl, h.symm⟩
  | valueOrEnd =>
    simp only [Parser.push, Parser.pushValue, Option.some.injEq] at h
    exact ⟨Or.inr rfl, h.symm⟩
  | _ => simp [Parser.push] at h

theorem complete_not_done {v : Json} {st : List Frame} (hst : st ≠ []) (w : Json) :
    (complete v st).mode ≠ .done w := by
  cases st with
  | nil => exact absurd rfl hst
  | cons f st => cases f <;> simp [complete]

theorem accepted_inside {F : FloatText} {s : State} {v : Json} (hs : Inside s.parser)
    (h : accepted F s = some v) : s.lex = .idle ∧ s.parser.mode = .done v := by
  obtain ⟨p, hp, hv⟩ := Option.bind_eq_some_iff.mp h
  have hmode : p.mode = .done v := by
    split at hv
    · rename_i w hw; rw [hw, Option.some.inj hv]
    · cases hv
  obtain ⟨lex, q⟩ := s
  cases lex with
  | idle =>
    simp only [flush, Option.some.injEq] at hp
    exact ⟨rfl, hp ▸ hmode⟩
  | atom acc =>
    obtain ⟨w, _, hw⟩ := Option.bind_eq_some_iff.mp hp
    obtain ⟨hready, rfl⟩ := push_scalar hw
    exact absurd hmode (complete_not_done (hs hready) v)
  | str acc => simp [flush] at hp
  | esc acc => simp [flush] at hp
  | uni acc seen value => simp [flush] at hp

theorem stepIdle_done {p : Parser} {v : Json} (hp : p.mode = .done v) {c : Char} {s : State}
    (h : stepIdle p c = some s) : isSpace c ∧ s = ⟨.idle, p⟩ := by
  unfold stepIdle at h
  split at h
  · exact ⟨by assumption, (Option.some.inj h).symm⟩
  · simp [hp] at h

/-- After the top value only white space is read. -/
theorem exec_done {F : FloatText} {p : Parser} {v : Json} (hp : p.mode = .done v)
    {cs : List Char} {s : State} (h : exec (readChar F) ⟨.idle, p⟩ cs = some s) :
    ∀ c ∈ cs, isSpace c := by
  induction cs with
  | nil => exact fun c hc => absurd hc List.not_mem_nil
  | cons c cs ih =>
    obtain ⟨s', h1, h2⟩ := exec_cons.mp h
    obtain ⟨hc, rfl⟩ := stepIdle_done hp (h1 : stepIdle p c = some s')
    intro d hd
    rcases List.mem_cons.mp hd with rfl | hd
    · exact hc
    · exact ih h2 d hd

theorem dumpsFields_last (F : FloatText) (fs : List (String × Json)) :
    ∃ cs, dumpsFields F fs = cs ++ ['}'] := by
  induction fs with
  | nil => exact ⟨[], rfl⟩
  | cons f fs ih =>
    obtain ⟨cs, hcs⟩ := ih
    refine ⟨',' :: ' ' :: (strText f.1 ++ ':' :: ' ' :: (dumps F f.2 ++ cs)), ?_⟩
    simp [dumpsFields, hcs]

theorem dumps_obj_last (F : FloatText) (fs : List (String × Json)) :
    ∃ cs, dumps F (.obj fs) = cs ++ ['}'] := by
  cases fs with
  | nil => exact ⟨['{'], rfl⟩
  | cons f fs =>
    obtain ⟨cs, hcs⟩ := dumpsFields_last F fs
    refine ⟨'{' :: (strText f.1 ++ ':' :: ' ' :: (dumps F f.2 ++ cs)), ?_⟩
    simp [dumps, hcs]

theorem dumps_obj_head (F : FloatText) (fs : List (String × Json)) :
    ∃ cs, dumps F (.obj fs) = '{' :: cs := by
  cases fs with
  | nil => exact ⟨_, rfl⟩
  | cons f fs => exact ⟨_, rfl⟩

/-- Reading a non-empty prefix of an object's text, the parser is inside the object. -/
theorem exec_obj_prefix (F : FloatText) {fs : List (String × Json)}
    (hfs : Printable F (.obj fs)) {q r : List Char} (hqr : dumps F (.obj fs) = q ++ r)
    (hq : q ≠ []) :
    ∃ s t, exec (readChar F) start q = some s ∧ Inside s.parser ∧
      exec (readChar F) s r = some t ∧ accepted F t = some (.obj fs) := by
  obtain ⟨t, ht, hf⟩ := exec_dumps F (.obj fs) hfs (p := ⟨.value, []⟩) (Or.inl rfl)
  rw [hqr] at ht
  obtain ⟨s, hs, hst⟩ := exec_append.mp ht
  refine ⟨s, t, hs, ?_, hst, by rw [accepted, hf]; rfl⟩
  obtain ⟨cs, hcs⟩ := dumps_obj_head F fs
  cases q with
  | nil => exact absurd rfl hq
  | cons c q =>
    have hc : c = '{' := by
      rw [hcs, List.cons_append] at hqr
      exact (List.cons.inj hqr).1.symm
    subst hc
    obtain ⟨s₁, h₁, h₂⟩ := exec_cons.mp hs
    refine inside_exec ?_ h₂
    have hopen : readChar F start '{' = some ⟨.idle, ⟨.keyOrEnd, []⟩⟩ := rfl
    rw [show (⟨.idle, ⟨.value, []⟩⟩ : State) = start from rfl, hopen, Option.some.injEq] at h₁
    subst h₁
    rintro (h | h) <;> simp at h

/-- A proper, non-empty prefix of an object's text is not read as anything. -/
theorem loads_proper_prefix (F : FloatText) {fs : List (String × Json)}
    (hfs : Printable F (.obj fs)) {q r : List Char} (hqr : dumps F (.obj fs) = q ++ r)
    (hq : q ≠ []) (hr : r ≠ []) : loads F q = none := by
  obtain ⟨s, t, hs, hin, hst, _⟩ := exec_obj_prefix F hfs hqr hq
  simp only [loads, hs, Option.bind_some]
  cases hacc : accepted F s with
  | none => rfl
  | some v =>
    obtain ⟨hidle, hdone⟩ := accepted_inside hin hacc
    obtain ⟨lex, p⟩ := s
    simp only at hidle hdone
    subst hidle
    obtain ⟨cs, hcs⟩ := dumps_obj_last F fs
    have hlast : '}' ∈ r := by
      have h := congrArg List.getLast? (hqr.symm.trans hcs)
      rw [List.getLast?_append_of_ne_nil _ hr, List.getLast?_concat] at h
      exact List.mem_of_getLast? h
    exact absurd (exec_done hdone hst '}' hlast) (by decide)

/-! ## Texts are printable ASCII -/

def PrintableChar (c : Char) : Prop := 0x20 ≤ c.toNat ∧ c.toNat < 0x7f

instance (c : Char) : Decidable (PrintableChar c) := by unfold PrintableChar; infer_instance

/-- The characters of a written-out text, checked one by one. -/
theorem printableChar_of_all {cs : List Char}
    (h : (cs.all fun c => decide (PrintableChar c)) = true) : ∀ c ∈ cs, PrintableChar c := by
  simpa only [List.all_eq_true, decide_eq_true_eq] using h

theorem printableChar_of_range {c lo hi : Char} (hlo : PrintableChar lo) (hhi : PrintableChar hi)
    (h : lo.val ≤ c.val ∧ c.val ≤ hi.val) : PrintableChar c :=
  ⟨le_trans hlo.1 (UInt32.le_iff_toNat_le.mp h.1),
    lt_of_le_of_lt (UInt32.le_iff_toNat_le.mp h.2) hhi.2⟩

theorem printableChar_of_isAlphanum {c : Char} (h : c.isAlphanum = true) : PrintableChar c := by
  rcases Bool.or_eq_true_iff.mp h with h | h
  · rcases Bool.or_eq_true_iff.mp h with h | h
    · have h : 'A'.val ≤ c.val ∧ c.val ≤ 'Z'.val := of_decide_eq_true h
      exact printableChar_of_range (by decide) (by decide) h
    · have h := Bool.and_eq_true_iff.mp h
      exact printableChar_of_range (by decide) (by decide)
        ⟨of_decide_eq_true h.1, of_decide_eq_true h.2⟩
  · have h := Bool.and_eq_true_iff.mp h
    exact printableChar_of_range (by decide) (by decide)
      ⟨of_decide_eq_true h.1, of_decide_eq_true h.2⟩

theorem printableChar_of_isAtomChar {c : Char} (h : isAtomChar c) : PrintableChar c := by
  simp only [isAtomChar, Bool.or_eq_true, decide_eq_true_eq] at h
  rcases h with ((h | rfl) | rfl) | rfl
  · exact printableChar_of_isAlphanum h
  all_goals decide

theorem printableChar_digitChar {d : Nat} (h : d < 16) : PrintableChar (Nat.digitChar d) := by
  interval_cases d <;> decide

theorem printableChar_unicodeEscape {n : Nat} {c : Char} (h : c ∈ unicodeEscape n) :
    PrintableChar c := by
  simp only [unicodeEscape, List.mem_cons, List.not_mem_nil, or_false] at h
  rcases h with rfl | rfl | rfl | rfl | rfl | rfl
  · decide
  · decide
  all_goals exact printableChar_digitChar (Nat.mod_lt _ (by decide))

theorem printableChar_escapeChar {c d : Char} (h : d ∈ escapeChar c) : PrintableChar d := by
  by_cases hnamed : ∃ e ∈ namedEscapes, c = e.1
  · obtain ⟨e, he, rfl⟩ := hnamed
    have hsecond : ∀ e ∈ namedEscapes, PrintableChar e.2 := by decide
    rw [escapeChar_named e he, List.mem_cons, List.mem_singleton] at h
    rcases h with rfl | rfl
    · decide
    · exact hsecond e he
  · rw [escapeChar_unnamed fun e he hc => hnamed ⟨e, he, hc⟩] at h
    split at h
    · rename_i hc
      rw [List.mem_singleton] at h
      exact h ▸ hc
    · obtain ⟨u, _, hu⟩ := List.mem_flatMap.mp h
      exact printableChar_unicodeEscape hu

theorem printableChar_strText {s : String} {c : Char} (h : c ∈ strText s) : PrintableChar c := by
  simp only [strText, List.cons_append, List.mem_cons, List.mem_append, List.not_mem_nil,
    or_false] at h
  rcases h with rfl | h | rfl
  · decide
  · obtain ⟨d, _, hd⟩ := List.mem_flatMap.mp h
    exact printableChar_escapeChar hd
  · decide

mutual

theorem printableChar_dumps (F : FloatText) : ∀ (v : Json), Printable F v →
    ∀ c ∈ dumps F v, PrintableChar c
  | .null, _, c, hc => by
    rw [dumps] at hc
    exact printableChar_of_all rfl c hc
  | .bool true, _, c, hc => by
    rw [dumps] at hc
    exact printableChar_of_all rfl c hc
  | .bool false, _, c, hc => by
    rw [dumps] at hc
    exact printableChar_of_all rfl c hc
  | .int n, _, c, hc => printableChar_of_isAtomChar (isAtomChar_of_mem_intText hc)
  | .float x, hv, c, hc => printableChar_of_isAtomChar (isAtomChar_of_mem_repr F hv hc)
  | .str s, _, c, hc => printableChar_strText hc
  | .arr [], _, c, hc => by
    rw [dumps] at hc
    exact printableChar_of_all rfl c hc
  | .arr (v :: vs), hv, c, hc => by
    simp only [dumps, List.mem_cons, List.mem_append] at hc
    rcases hc with rfl | hc | hc
    · decide
    · exact printableChar_dumps F v hv.1 c hc
    · exact printableChar_dumpsItems F vs hv.2 c hc
  | .obj [], _, c, hc => by
    rw [dumps] at hc
    exact printableChar_of_all rfl c hc
  | .obj ((k, v) :: fs), hv, c, hc => by
    simp only [dumps, List.mem_cons, List.mem_append] at hc
    rcases hc with rfl | hc | rfl | rfl | hc | hc
    · decide
    · exact printableChar_strText hc
    · decide
    · decide
    · exact printableChar_dumps F v hv.1 c hc
    · exact printableChar_dumpsFields F fs hv.2 c hc

theorem printableChar_dumpsItems (F : FloatText) : ∀ (vs : List Json), PrintableItems F vs →
    ∀ c ∈ dumpsItems F vs, PrintableChar c
  | [], _, c, hc => by
    rw [dumpsItems] at hc
    exact printableChar_of_all rfl c hc
  | v :: vs, hv, c, hc => by
    simp only [dumpsItems, List.mem_cons, List.mem_append] at hc
    rcases hc with rfl | rfl | hc | hc
    · decide
    · decide
    · exact printableChar_dumps F v hv.1 c hc
    · exact printableChar_dumpsItems F vs hv.2 c hc

theorem printableChar_dumpsFields (F : FloatText) : ∀ (fs : List (String × Json)),
    PrintableFields F fs → ∀ c ∈ dumpsFields F fs, PrintableChar c
  | [], _, c, hc => by
    rw [dumpsFields] at hc
    exact printableChar_of_all rfl c hc
  | (k, v) :: fs, hv, c, hc => by
    simp only [dumpsFields, List.mem_cons, List.mem_append] at hc
    rcases hc with rfl | rfl | hc | rfl | rfl | hc | hc
    · decide
    · decide
    · exact printableChar_strText hc
    · decide
    · decide
    · exact printableChar_dumps F v hv.1 c hc
    · exact printableChar_dumpsFields F fs hv.2 c hc

end

/-! ## A prefix followed by another text -/

theorem escapeChar_of_isAtomChar {c : Char} (h : isAtomChar c) : escapeChar c = [c] := by
  have hr : 0x20 ≤ c.toNat ∧ c.toNat < 0x7f := printableChar_of_isAtomChar h
  have hatom : ∀ e ∈ namedEscapes, isAtomChar e.1 = false := by decide
  have hne : ∀ e ∈ namedEscapes, c ≠ e.1 := by
    rintro e he rfl
    rw [hatom e he] at h
    cases h
  rw [escapeChar_unnamed hne, if_pos hr]

/-- The name of a field that is plain letters but no JSON word. -/
def PlainName (F : FloatText) (k : String) : Prop :=
  k.toList ≠ [] ∧ (∀ c ∈ k.toList, isAtomChar c) ∧ atomValue F k.toList = none

theorem strText_plain {F : FloatText} {k : String} (hk : PlainName F k) :
    strText k = '"' :: (k.toList ++ ['"']) := by
  have h : ∀ cs : List Char, (∀ c ∈ cs, isAtomChar c) → cs.flatMap escapeChar = cs := by
    intro cs hcs
    induction cs with
    | nil => rfl
    | cons c cs ih =>
      rw [List.flatMap_cons, escapeChar_of_isAtomChar (hcs c List.mem_cons_self),
        ih fun d hd => hcs d (List.mem_cons_of_mem c hd)]
      rfl
  rw [strText, h _ hk.2.1, List.cons_append]

/-- Outside strings a plain name and a quote cannot be read. -/
theorem exec_plainName {F : FloatText} {k : String} (hk : PlainName F k) (p : Parser)
    (rest : List Char) :
    exec (readChar F) ⟨.idle, p⟩ (k.toList ++ '"' :: rest) = none := by
  by_cases hmode : ∀ v, p.mode ≠ .done v
  · have h := exec_atom F hk.1 hk.2.1 hmode
    have hquote : readChar F ⟨.atom k.toList.reverse, p⟩ '"' = none := by
      simp [readChar, isAtomChar, flush, hk.2.2]
    rw [Option.eq_none_iff_forall_ne_some]
    intro t ht
    obtain ⟨s, hs, hst⟩ := exec_append.mp ht
    rw [h, Option.some.injEq] at hs
    subst hs
    obtain ⟨s', hs', _⟩ := exec_cons.mp hst
    rw [hquote] at hs'
    cases hs'
  · simp only [not_forall, not_not] at hmode
    obtain ⟨v, hv⟩ := hmode
    rw [Option.eq_none_iff_forall_ne_some]
    intro t ht
    have h := exec_done hv ht
    exact absurd (h '"' (by simp)) (by decide)

theorem push_lbrace_not_ready {p : Parser} (hp : ¬ Ready p) : p.push .lbrace = none := by
  obtain ⟨mode, st⟩ := p
  cases mode with
  | value => exact absurd (Or.inl rfl) hp
  | valueOrEnd => exact absurd (Or.inr rfl) hp
  | _ => rfl

theorem stepIdle_lbrace_not_ready {p : Parser} (hp : ¬ Ready p) : stepIdle p '{' = none := by
  unfold stepIdle
  split
  · rename_i h; exact absurd h (by decide)
  split
  · rfl
  split
  · rename_i h; exact absurd h (by decide)
  split
  · rename_i h; exact absurd h (by decide)
  · simp [punct, push_lbrace_not_ready hp]

/-- From inside an object, no further object's text brings the reader to an end. -/
theorem exec_obj_not_accepted {F : FloatText} {k : String} (hk : PlainName F k) {v : Json}
    {gs : List (String × Json)} (hgs : Printable F (.obj ((k, v) :: gs))) {s t : State}
    (hs : Inside s.parser) (h : exec (readChar F) s (dumps F (.obj ((k, v) :: gs))) = some t) :
    accepted F t = none := by
  have htext : ∃ rest, dumps F (.obj ((k, v) :: gs)) = '{' :: '"' :: (k.toList ++ '"' :: rest) := by
    refine ⟨':' :: ' ' :: (dumps F v ++ dumpsFields F gs), ?_⟩
    simp [dumps, strText_plain hk]
  obtain ⟨rest, hrest⟩ := htext
  obtain ⟨lex, p⟩ := s
  cases lex with
  | idle =>
    -- the object is read as a value inside the open one, which stays open
    by_cases hready : Ready p
    · obtain ⟨t', ht', hf⟩ := exec_dumps F _ hgs hready
      rw [h, Option.some.injEq] at ht'
      subst ht'
      -- the default branch of the match is taken by `hnd`
      have hnd := complete_not_done (v := .obj ((k, v) :: gs)) (hs hready)
      simp only [accepted, hf, Option.bind_some]
    · rw [hrest, exec_cons] at h
      obtain ⟨s', hs', _⟩ := h
      have : readChar F ⟨.idle, p⟩ '{' = none := stepIdle_lbrace_not_ready hready
      rw [this] at hs'
      cases hs'
  | atom acc =>
    rw [hrest, exec_cons] at h
    obtain ⟨s', hs', _⟩ := h
    have : readChar F ⟨.atom acc, p⟩ '{' = none := by
      rw [readChar]
      simp only [isAtomChar, flush]
      cases hv : atomValue F acc.reverse with
      | none => rfl
      | some w =>
        cases hp : p.push (.scalar w) with
        | none => simp [hp]
        | some p' =>
          obtain ⟨_, rfl⟩ := push_scalar hp
          have hnot := stepIdle_lbrace_not_ready (not_ready_complete w p.stack)
          simp [hp, hnot]
    rw [this] at hs'
    cases hs'
  | str acc =>
    -- the quote that opens the name closes the torn string
    rw [hrest] at h
    obtain ⟨s₁, h₁, h₂⟩ := exec_cons.mp h
    have hbrace : readChar F ⟨.str acc, p⟩ '{' = some ⟨.str (123 :: acc), p⟩ := rfl
    rw [hbrace, Option.some.injEq] at h₁
    subst h₁
    obtain ⟨s₂, h₂, h₃⟩ := exec_cons.mp h₂
    have hidle : s₂.lex = .idle := by
      simp only [readChar, if_true] at h₂
      obtain ⟨cs, _, hcs⟩ := Option.bind_eq_some_iff.mp h₂
      obtain ⟨p', _, rfl⟩ := Option.map_eq_some_iff.mp hcs
      rfl
    obtain ⟨lex₂, p₂⟩ := s₂
    simp only at hidle
    subst hidle
    rw [exec_plainName hk] at h₃
    cases h₃
  | esc acc =>
    rw [hrest, exec_cons] at h
    obtain ⟨s', hs', _⟩ := h
    cases hs'
  | uni acc seen value =>
    rw [hrest, exec_cons] at h
    obtain ⟨s', hs', _⟩ := h
    cases hs'

/-- A non-empty prefix of an object's text (all of it included) with another object's text
    after it is not read as anything. -/
theorem loads_glued (F : FloatText) {fs gs : List (String × Json)} {k : String} {v : Json}
    (hk : PlainName F k) (hfs : Printable F (.obj fs))
    (hgs : Printable F (.obj ((k, v) :: gs))) {q r : List Char}
    (hqr : dumps F (.obj fs) = q ++ r) (hq : q ≠ []) :
    loads F (q ++ dumps F (.obj ((k, v) :: gs))) = none := by
  obtain ⟨s, _, hs, hin, _, _⟩ := exec_obj_prefix F hfs hqr hq
  unfold loads
  cases h : exec (readChar F) start (q ++ dumps F (.obj ((k, v) :: gs))) with
  | none => rfl
  | some t =>
    obtain ⟨s', hs', ht⟩ := exec_append.mp h
    rw [hs, Option.some.injEq] at hs'
    subst hs'
    exact exec_obj_not_accepted hk hgs hin ht

/-! ## A float format -/

/-- Floats without a fraction, written with ".0". -/
def wholeFloats : FloatText where
  isFloat x := x.den = 1
  repr x := intText x.num ++ ['.', '0']
  parse cs := (intOfText cs.dropLast.dropLast).map Int.cast
  parse_repr x hx := by
    have hdrop : (intText x.num ++ ['.', '0']).dropLast.dropLast = intText x.num := by
      rw [List.dropLast_append_of_ne_nil (by simp)]
      simp
    rw [hdrop, intOfText_intText, Option.map_some, Rat.coe_int_num_of_den_eq_one hx]
  repr_chars x _ c hc := by
    simp only [List.mem_append, List.mem_cons, List.not_mem_nil, or_false] at hc
    rcases hc with hc | rfl | rfl
    · rcases mem_intText hc with h | h
      · exact Or.inl h
      · exact Or.inr (Or.inr (Or.inl h))
    · decide
    · decide
  repr_mark x _ := Or.inl (by simp)

end Lib.Json
