import ExprLang.Proofs.Decimal.Words
import Mathlib.Logic.Function.Basic

/-!
# Registers

Programs of operations on registers are run with significands and with natural numbers.  One operation keeps the
registers alike (`step_agrees`), so a whole program does (`run_agrees`): from registers that hold zero, significands
stay canonical, stand for the natural numbers, and give the same remainders and faults (`run_significand_natural`).
-/

namespace ExprLang

/-- The operations on registers.  Each reads the register `target`, and all but the remainder change it. -/
inductive RegisterOperation (ι : Type) where
  | zero (target : ι)
  | ofWord (target : ι) (value : UInt64)
  | copy (target source : ι)
  | add (target source : ι)
  | addSmall (target : ι) (addend : UInt64)
  | multiply (target source : ι)
  | multiplySmall (target : ι) (factor : UInt64)
  | divideSmall (target : ι) (divisor : UInt64)
  | modulusSmall (target : ι) (divisor : UInt64)
  | shiftLeft (target : ι) (places : UInt64)
  | shiftRight (target : ι) (places : UInt64)

/-- What registers hold, with what the operations do to it. -/
structure Arithmetic (α : Type) where
  zero : α
  ofWord : UInt64 → α
  add : α → α → Except Fault α
  addSmall : α → UInt64 → Except Fault α
  multiply : α → α → Except Fault α
  multiplySmall : α → UInt64 → Except Fault α
  divideSmall : α → UInt64 → Except Fault (α × Nat)
  modulusSmall : α → UInt64 → Except Fault Nat
  shiftLeft : α → UInt64 → Except Fault α
  shiftRight : α → UInt64 → Except Fault α

namespace Arithmetic

/-- The arithmetic of natural numbers. -/
def natural : Arithmetic Nat where
  zero := 0
  ofWord word := word.toNat
  add a b := .ok (a + b)
  addSmall a word := .ok (a + word.toNat)
  multiply a b := .ok (a * b)
  multiplySmall a word := .ok (a * word.toNat)
  divideSmall a word :=
    if word.toNat = 0 then .error .divisionByZero else .ok (a / word.toNat, a % word.toNat)
  modulusSmall a word := if word.toNat = 0 then .error .divisionByZero else .ok (a % word.toNat)
  shiftLeft a word := .ok (a * 2 ^ word.toNat)
  shiftRight a word := .ok (a / 2 ^ word.toNat)

/-- The arithmetic of significands. -/
def significand : Arithmetic Significand where
  zero := .zero
  ofWord word := .ofNat word.toNat
  add a b := .ok (a.add b)
  addSmall s word := .ok (s.addSmall word.toNat)
  multiply a b := .ok (a.multiply b)
  multiplySmall s word := .ok (s.multiplySmall word.toNat)
  divideSmall s word := s.divideSmall word.toNat
  modulusSmall s word := s.modulusSmall word.toNat
  shiftLeft s word := .ok (s.shiftLeft word.toNat)
  shiftRight s word := .ok (s.shiftRight word.toNat)

/-- The arithmetic of significands whose loops keep their sums in checked words. -/
def inWords : Arithmetic Significand where
  zero := .zero
  ofWord word := .ofNat word.toNat
  add a b := do return ⟨← addInWords a.bytes b.bytes 0⟩
  addSmall s word := do return ⟨← addSmallInWords s.bytes word.toNat⟩
  multiply a b := do return ⟨← multiplyInWords a.bytes b.bytes⟩
  multiplySmall s word := do return ⟨trimBytes (← multiplySmallInWords word.toNat s.bytes 0)⟩
  divideSmall s word :=
    if word.toNat = 0 then .error .divisionByZero
    else do
      let (quotient, remainder) ← divideInWords word.toNat s.bytes
      return (⟨trimBytes quotient⟩, remainder)
  modulusSmall s word :=
    if word.toNat = 0 then .error .divisionByZero else modulusInWords word.toNat s.bytes
  shiftLeft s word :=
    if s.isZero then .ok s
    else do return ⟨List.replicate (word.toNat / 8) 0 ++ (← raiseInWords (word.toNat % 8) s.bytes 0)⟩
  shiftRight s word := do
    let (lowered, _) ← lowerInWords (word.toNat % 8) (s.bytes.drop (word.toNat / 8))
    return ⟨trimBytes lowered⟩

end Arithmetic

/-! ### Programs -/

namespace RegisterOperation

variable {ι α : Type}

/-- The register that an operation is about. -/
def target : RegisterOperation ι → ι
  | zero target | ofWord target _ | copy target _ | add target _ | addSmall target _ | multiply target _
  | multiplySmall target _ | divideSmall target _ | modulusSmall target _ | shiftLeft target _
  | shiftRight target _ => target

/-- What an operation leaves in its register, and the remainder that it gives, if any. -/
def apply (arithmetic : Arithmetic α) (registers : ι → α) : RegisterOperation ι → Except Fault (α × Option Nat)
  | zero _ => .ok (arithmetic.zero, none)
  | ofWord _ value => .ok (arithmetic.ofWord value, none)
  | copy _ source => .ok (registers source, none)
  | add target source => do return (← arithmetic.add (registers target) (registers source), none)
  | addSmall target addend => do return (← arithmetic.addSmall (registers target) addend, none)
  | multiply target source => do return (← arithmetic.multiply (registers target) (registers source), none)
  | multiplySmall target factor => do return (← arithmetic.multiplySmall (registers target) factor, none)
  | divideSmall target divisor => do
    let (quotient, remainder) ← arithmetic.divideSmall (registers target) divisor
    return (quotient, some remainder)
  | modulusSmall target divisor => do
    return (registers target, some (← arithmetic.modulusSmall (registers target) divisor))
  | shiftLeft target places => do return (← arithmetic.shiftLeft (registers target) places, none)
  | shiftRight target places => do return (← arithmetic.shiftRight (registers target) places, none)

variable [DecidableEq ι]

/-- The result of an operation and the registers after it, which a fault leaves as they were. -/
def step (arithmetic : Arithmetic α) (registers : ι → α) (op : RegisterOperation ι) :
    Except Fault (Option Nat) × (ι → α) :=
  match op.apply arithmetic registers with
  | .ok (value, result) => (.ok result, Function.update registers op.target value)
  | .error fault => (.error fault, registers)

/-- The results of operations one after the other, whether they run into faults or not, and the registers at last. -/
def run (arithmetic : Arithmetic α) (registers : ι → α) :
    List (RegisterOperation ι) → List (Except Fault (Option Nat)) × (ι → α)
  | [] => ([], registers)
  | op :: ops =>
    let (result, registers) := op.step arithmetic registers
    let (results, registers) := run arithmetic registers ops
    (result :: results, registers)

end RegisterOperation

/-! ### Agreement -/

/-- Whether two computations run into the same fault or have results that are related. -/
def Agree {α β : Type} (R : α → β → Prop) : Except Fault α → Except Fault β → Prop
  | .ok a, .ok b => R a b
  | .error fault, .error other => fault = other
  | _, _ => False

private theorem Agree.bind {α β γ δ : Type} {R : α → β → Prop} {S : γ → δ → Prop} {a : Except Fault α}
    {b : Except Fault β}
    (h : Agree R a b) {f : α → Except Fault γ} {g : β → Except Fault δ} (hfg : ∀ x y, R x y → Agree S (f x) (g y)) :
    Agree S (a >>= f) (b >>= g) := by
  match a, b with
  | .ok x, .ok y => exact hfg x y h
  | .error _, .error _ => exact h
  | .ok _, .error _ => exact h.elim
  | .error _, .ok _ => exact h.elim

/-- What agrees with a result without a fault has that result. -/
theorem Agree.eq_ok {α : Type} {a : Except Fault α} {value : α} (h : Agree Eq a (.ok value)) : a = .ok value := by
  cases a with
  | ok result => exact congrArg Except.ok h
  | error fault => exact h.elim

/-- Whether the operations of two arithmetics agree on related numbers. -/
structure Arithmetic.Agrees {α β : Type} (R : α → β → Prop) (first : Arithmetic α) (second : Arithmetic β) : Prop where
  zero : R first.zero second.zero
  ofWord : ∀ word, R (first.ofWord word) (second.ofWord word)
  add : ∀ {a a' b b'}, R a b → R a' b' → Agree R (first.add a a') (second.add b b')
  addSmall : ∀ {a b}, R a b → ∀ word, Agree R (first.addSmall a word) (second.addSmall b word)
  multiply : ∀ {a a' b b'}, R a b → R a' b' → Agree R (first.multiply a a') (second.multiply b b')
  multiplySmall : ∀ {a b}, R a b → ∀ word, Agree R (first.multiplySmall a word) (second.multiplySmall b word)
  divideSmall : ∀ {a b}, R a b → ∀ word,
    Agree (fun x y => R x.1 y.1 ∧ x.2 = y.2) (first.divideSmall a word) (second.divideSmall b word)
  modulusSmall : ∀ {a b}, R a b → ∀ word, Agree Eq (first.modulusSmall a word) (second.modulusSmall b word)
  shiftLeft : ∀ {a b}, R a b → ∀ word, Agree R (first.shiftLeft a word) (second.shiftLeft b word)
  shiftRight : ∀ {a b}, R a b → ∀ word, Agree R (first.shiftRight a word) (second.shiftRight b word)

namespace RegisterOperation

variable {ι α β : Type} {R : α → β → Prop} {first : Arithmetic α} {second : Arithmetic β} {registers : ι → α}
  {others : ι → β}

private theorem apply_agrees (h : first.Agrees R second) (hregisters : ∀ r, R (registers r) (others r))
    (op : RegisterOperation ι) :
    Agree (fun x y => R x.1 y.1 ∧ x.2 = y.2) (op.apply first registers) (op.apply second others) := by
  cases op with
  | zero => exact ⟨h.zero, rfl⟩
  | ofWord _ value => exact ⟨h.ofWord value, rfl⟩
  | copy _ source => exact ⟨hregisters source, rfl⟩
  | add target source => exact (h.add (hregisters target) (hregisters source)).bind fun _ _ hvalue => ⟨hvalue, rfl⟩
  | addSmall target addend => exact (h.addSmall (hregisters target) addend).bind fun _ _ hvalue => ⟨hvalue, rfl⟩
  | multiply target source =>
    exact (h.multiply (hregisters target) (hregisters source)).bind fun _ _ hvalue => ⟨hvalue, rfl⟩
  | multiplySmall target factor =>
    exact (h.multiplySmall (hregisters target) factor).bind fun _ _ hvalue => ⟨hvalue, rfl⟩
  | divideSmall target divisor =>
    exact (h.divideSmall (hregisters target) divisor).bind fun _ _ hvalue => ⟨hvalue.1, congrArg some hvalue.2⟩
  | modulusSmall target divisor =>
    exact (h.modulusSmall (hregisters target) divisor).bind fun _ _ hvalue => ⟨hregisters target, congrArg some hvalue⟩
  | shiftLeft target places => exact (h.shiftLeft (hregisters target) places).bind fun _ _ hvalue => ⟨hvalue, rfl⟩
  | shiftRight target places => exact (h.shiftRight (hregisters target) places).bind fun _ _ hvalue => ⟨hvalue, rfl⟩

variable [DecidableEq ι]

/-- One operation gives the same result, and leaves related registers. -/
private theorem step_agrees (h : first.Agrees R second) (hregisters : ∀ r, R (registers r) (others r))
    (op : RegisterOperation ι) : (op.step first registers).1 = (op.step second others).1 ∧
      ∀ r, R ((op.step first registers).2 r) ((op.step second others).2 r) := by
  have happly := apply_agrees h hregisters op
  rw [step, step]
  match hfirst : op.apply first registers, hsecond : op.apply second others with
  | .ok (value, result), .ok (other, result') =>
    rw [hfirst, hsecond] at happly
    obtain ⟨hvalue, hresult⟩ := happly
    refine ⟨congrArg Except.ok hresult, fun r => ?_⟩
    by_cases hr : r = op.target
    · subst hr
      simpa using hvalue
    · simpa [Function.update_of_ne hr] using hregisters r
  | .error fault, .error other =>
    rw [hfirst, hsecond] at happly
    exact ⟨congrArg Except.error happly, hregisters⟩
  | .ok _, .error _ => rw [hfirst, hsecond] at happly; exact happly.elim
  | .error _, .ok _ => rw [hfirst, hsecond] at happly; exact happly.elim

/-- A program gives the same results, and leaves related registers. -/
private theorem run_agrees (h : first.Agrees R second) (hregisters : ∀ r, R (registers r) (others r))
    (ops : List (RegisterOperation ι)) : (run first registers ops).1 = (run second others ops).1 ∧
      ∀ r, R ((run first registers ops).2 r) ((run second others ops).2 r) := by
  induction ops generalizing registers others with
  | nil => exact ⟨rfl, hregisters⟩
  | cons op ops ih =>
    obtain ⟨hresult, hafter⟩ := step_agrees h hregisters op
    obtain ⟨hresults, hlast⟩ := ih hafter
    exact ⟨congrArg₂ List.cons hresult hresults, hlast⟩

end RegisterOperation

/-! ### Significands as natural numbers -/

/-- Whether a significand is the canonical one of a number. -/
def Significand.IsOf (s : Significand) (n : Nat) : Prop :=
  s.IsCanonical ∧ s.toNat = n

namespace Arithmetic

private theorem significand_agrees_natural : significand.Agrees Significand.IsOf natural where
  zero := ⟨by decide, rfl⟩
  ofWord word := ⟨Significand.isCanonical_ofNat _, Significand.toNat_ofNat _⟩
  add := by
    rintro a a' _ _ ⟨ha, rfl⟩ ⟨ha', rfl⟩
    exact ⟨getLast?_addBytes ha ha' 0, bytesValue_addBytes a.bytes a'.bytes 0⟩
  addSmall := by
    rintro s _ ⟨hs, rfl⟩ word
    exact ⟨getLast?_absorb hs _, bytesValue_absorb s.bytes _⟩
  multiply := by
    rintro a a' _ _ ⟨-, rfl⟩ ⟨-, rfl⟩
    exact ⟨getLast?_trimBytes _, by simp [Significand.toNat, Significand.multiply]⟩
  multiplySmall := by
    rintro s _ ⟨-, rfl⟩ word
    exact ⟨getLast?_trimBytes _, by simp [Significand.toNat, Significand.multiplySmall]⟩
  divideSmall := by
    rintro s _ ⟨-, rfl⟩ word
    show Agree _ (s.divideSmall word.toNat) (if word.toNat = 0 then _ else _)
    rw [Significand.divideSmall]
    split
    · rfl
    · rename_i hword
      have hspec := divideBytes_spec (Nat.pos_of_ne_zero hword) s.bytes
      exact ⟨⟨getLast?_trimBytes _, by simp [Significand.toNat, hspec.1]⟩, hspec.2⟩
  modulusSmall := by
    rintro s _ ⟨-, rfl⟩ word
    show Agree _ (s.modulusSmall word.toNat) (if word.toNat = 0 then _ else _)
    rw [Significand.modulusSmall]
    split
    · rfl
    · rename_i hword
      exact foldr_mod_eq _ s.bytes
  shiftLeft := by
    rintro s _ ⟨hs, rfl⟩ word
    exact ⟨Significand.isCanonical_shiftLeft hs _, Significand.toNat_shiftLeft s _⟩
  shiftRight := by
    rintro s _ ⟨-, rfl⟩ word
    exact ⟨Significand.isCanonical_shiftRight s _, Significand.toNat_shiftRight s _⟩

/-- No sum is too large for its word, and no place of a product is missed. -/
theorem inWords_agrees_significand : inWords.Agrees Eq significand where
  zero := rfl
  ofWord _ := rfl
  add := by
    rintro a a' _ _ rfl rfl
    show Agree Eq (do return Significand.mk (← addInWords a.bytes a'.bytes 0)) _
    rw [addInWords_eq a.bytes a'.bytes (Nat.zero_le 1)]
    rfl
  addSmall := by
    rintro s _ rfl word
    show Agree Eq (do return Significand.mk (← addSmallInWords s.bytes word.toNat)) _
    rw [addSmallInWords_eq word.toNat_lt]
    rfl
  multiply := by
    rintro a a' _ _ rfl rfl
    show Agree Eq (do return Significand.mk (← multiplyInWords a.bytes a'.bytes)) _
    rw [multiplyInWords_eq]
    rfl
  multiplySmall := by
    rintro s _ rfl word
    show Agree Eq (do return Significand.mk (trimBytes (← multiplySmallInWords word.toNat s.bytes 0))) _
    rw [multiplySmallInWords_eq word.toNat_lt s.bytes (by decide)]
    rfl
  divideSmall := by
    rintro s _ rfl word
    show Agree _ (if word.toNat = 0 then _ else _) (s.divideSmall word.toNat)
    rw [Significand.divideSmall]
    split
    · rfl
    · rename_i hword
      rw [divideInWords_eq (Nat.pos_of_ne_zero hword) word.toNat_lt]
      exact ⟨rfl, rfl⟩
  modulusSmall := by
    rintro s _ rfl word
    show Agree _ (if word.toNat = 0 then _ else _) (s.modulusSmall word.toNat)
    rw [Significand.modulusSmall]
    split
    · rfl
    · rename_i hword
      rw [modulusInWords_eq (Nat.pos_of_ne_zero hword) word.toNat_lt, foldr_mod_eq]
      rfl
  shiftLeft := by
    rintro s _ rfl word
    show Agree _ (if s.isZero then _ else _) (.ok (s.shiftLeft word.toNat))
    rw [Significand.shiftLeft]
    split
    · rfl
    · rw [raiseInWords_eq (Nat.mod_lt _ (by decide)) s.bytes (Nat.two_pow_pos _)]
      rfl
  shiftRight := by
    rintro s _ rfl word
    show Agree _ (do let (lowered, _) ← lowerInWords (word.toNat % 8) (s.bytes.drop (word.toNat / 8)); _) _
    rw [lowerInWords_eq (Nat.mod_lt _ (by decide))]
    rfl

end Arithmetic

namespace RegisterOperation

variable {ι : Type} [DecidableEq ι]

/-- Whatever program is run from registers that hold zero, significands stay canonical, stand for the natural numbers,
and give the same remainders and faults; they are equal and ordered as the numbers are.  Nothing changes if the
loops keep their sums in words. -/
theorem run_significand_natural (ops : List (RegisterOperation ι)) :
    let numbers := run .natural (fun _ => 0) ops
    let significands := run .significand (fun _ => .zero) ops
    run .inWords (fun _ => .zero) ops = significands ∧
    significands.1 = numbers.1 ∧
    (∀ r, (significands.2 r).IsCanonical ∧ (significands.2 r).toNat = numbers.2 r) ∧
    ∀ r s, (significands.2 r = significands.2 s ↔ numbers.2 r = numbers.2 s) ∧
      (significands.2 r).compare (significands.2 s) = compare (numbers.2 r) (numbers.2 s) := by
  intro numbers significands
  have hwords : _ ∧ ∀ r, (run .inWords (fun _ => .zero) ops).2 r = significands.2 r :=
    run_agrees Arithmetic.inWords_agrees_significand (fun _ => rfl) ops
  have hnumbers : _ ∧ ∀ r, (significands.2 r).IsOf (numbers.2 r) :=
    run_agrees Arithmetic.significand_agrees_natural (fun _ => Arithmetic.significand_agrees_natural.zero) ops
  refine ⟨Prod.ext hwords.1 (funext hwords.2), hnumbers.1, hnumbers.2, fun r s => ?_⟩
  obtain ⟨hr, hrValue⟩ := hnumbers.2 r
  obtain ⟨hs, hsValue⟩ := hnumbers.2 s
  refine ⟨⟨fun heq => ?_, fun heq => ?_⟩, ?_⟩
  · rw [← hrValue, ← hsValue]
    exact congrArg Significand.toNat heq
  · rw [← Significand.ofNat_toNat hr, ← Significand.ofNat_toNat hs, hrValue, hsValue]
    exact congrArg Significand.ofNat heq
  · rw [Significand.compare_eq_compare hr hs, hrValue, hsValue]

end RegisterOperation

end ExprLang
