/-
The classes of bytes that tokens are made of, and how they exclude one another.

A scan decides by one byte what comes next, so that a token ends where the next byte is of no class that can go on with
it. The classes are small and are told apart by their members.
-/
import CallSurface.Input.Token
import Mathlib.Tactic

namespace CallSurface

variable {b : UInt8}

theorem isDigit_iff : isDigit b = true ↔ 48 ≤ b.toNat ∧ b.toNat ≤ 57 := by
  simp only [isDigit, Bool.and_eq_true, decide_eq_true_eq, UInt8.le_iff_toNat_le]
  exact Iff.rfl

theorem isSign_iff : isSign b = true ↔ b = 43 ∨ b = 45 := by
  simp [isSign, isMinus]

theorem isBlank_iff : isBlank b = true ↔ b = 9 ∨ b = 10 ∨ b = 12 ∨ b = 13 ∨ b = 32 := by
  simp [isBlank, or_assoc]

/-- what all 256 bytes have in common can be checked one by one -/
theorem forall_byte {P : UInt8 → Prop} (h : ∀ n : Fin 256, P (UInt8.ofFin n)) (b : UInt8) : P b :=
  h b.toFin

theorem isPoint_iff : isPoint b = true ↔ b = 46 := by
  simp [isPoint]

theorem isExponentMark_iff : isExponentMark b = true ↔ b = 69 ∨ b = 101 :=
  forall_byte (P := fun b => isExponentMark b = true ↔ b = 69 ∨ b = 101) (by decide +kernel) b

theorem startsWord_iff : startsWord b = true ↔ b = 73 ∨ b = 78 ∨ b = 105 ∨ b = 110 :=
  forall_byte (P := fun b => startsWord b = true ↔ b = 73 ∨ b = 78 ∨ b = 105 ∨ b = 110) (by decide +kernel) b

/-- a digit is no blank and no sign, and begins neither a fraction nor a word nor an exponent -/
theorem isDigit_excludes (h : isDigit b = true) :
    isBlank b = false ∧ isSign b = false ∧ isPoint b = false ∧ startsWord b = false ∧ isExponentMark b = false := by
  have hb : b = UInt8.ofNat b.toNat := by simp
  obtain ⟨hmin, hmax⟩ := isDigit_iff.1 h
  rw [hb]
  interval_cases b.toNat <;> decide

/-- a sign is no blank and no digit -/
theorem isSign_excludes (h : isSign b = true) : isBlank b = false ∧ isDigit b = false := by
  rcases isSign_iff.1 h with rfl | rfl <;> decide

/-- a blank goes on with no part of a token -/
theorem isBlank_excludes (h : isBlank b = true) :
    isSign b = false ∧ isDigit b = false ∧ isPoint b = false ∧ isLetter b = false ∧ isExponentMark b = false := by
  rcases isBlank_iff.1 h with rfl | rfl | rfl | rfl | rfl <;> decide

/-- a point begins no other part of a number -/
theorem isPoint_excludes (h : isPoint b = true) :
    isBlank b = false ∧ isSign b = false ∧ isDigit b = false ∧ isExponentMark b = false ∧ startsWord b = false := by
  obtain rfl := isPoint_iff.1 h
  decide

/-- an exponent mark begins no other part of a number, and is not the first letter of a word -/
theorem isExponentMark_excludes (h : isExponentMark b = true) :
    isBlank b = false ∧ isSign b = false ∧ isDigit b = false ∧ isPoint b = false ∧ startsWord b = false := by
  rcases isExponentMark_iff.1 h with rfl | rfl <;> decide

/-- the first letter of a word begins no number -/
theorem startsWord_excludes (h : startsWord b = true) :
    isBlank b = false ∧ isSign b = false ∧ isDigit b = false ∧ isPoint b = false ∧ isExponentMark b = false := by
  rcases startsWord_iff.1 h with rfl | rfl | rfl | rfl <;> decide

end CallSurface
