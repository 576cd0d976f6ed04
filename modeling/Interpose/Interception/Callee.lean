import Interpose.Module

/-!
# Callees

A call can be intercepted only if `SignatureResolver::describe` knows its callee from the tables of
the module: the method must exist, and so must the type that declares it.
-/

namespace Interpose

structure Callee where
  method : MethodToken
  declaringType : TypeToken
  signature : Signature
  deriving DecidableEq, Repr

inductive Unresolvable where
  | notACall
  | indirect
  | unknownMethod (method : MethodToken)
  | unknownDeclaringType (method : MethodToken)
  deriving DecidableEq, Repr

def Unresolvable.message : Unresolvable → String
  | .notACall => "instruction is not a call"
  | .indirect => "indirect call has no static target"
  | .unknownMethod m => m.text ++ " is not defined in the module"
  | .unknownDeclaringType m => "declaring type of " ++ m.text ++ " is not defined in the module"

def Module.callee (m : Module) (token : MethodToken) : Except Unresolvable Callee :=
  match m.method? token with
  | none => .error (.unknownMethod token)
  | some method =>
    match m.type? method.declaringType with
    | none => .error (.unknownDeclaringType token)
    | some _ => .ok ⟨token, method.declaringType, method.signature⟩

def Module.describe (m : Module) : Instr → Except Unresolvable Callee
  | .call (.direct token) => m.callee token
  | .call (.indirect _) => .error .indirect
  | .op _ => .error .notACall

namespace Module

variable {m : Module} {c : Callee}

theorem callee_eq_ok_iff {t : MethodToken} : m.callee t = .ok c ↔ ∃ d type,
    m.method? t = some d ∧ m.type? d.declaringType = some type ∧
      c = ⟨t, d.declaringType, d.signature⟩ := by
  unfold callee
  constructor
  · intro h
    split at h
    · cases h
    · rename_i d hd
      split at h
      · cases h
      · rename_i type htype
        cases h
        exact ⟨d, type, hd, htype, rfl⟩
  · rintro ⟨d, type, hd, htype, rfl⟩
    simp only [hd, htype]

theorem describe_eq_ok_iff {i : Instr} : m.describe i = .ok c ↔
    ∃ t, i = .call (.direct t) ∧ m.callee t = .ok c := by
  constructor
  · intro h
    cases i with
    | op o => cases h
    | call target =>
      cases target with
      | indirect arity => cases h
      | direct t => exact ⟨t, rfl, h⟩
  · rintro ⟨t, rfl, h⟩
    exact h

end Module

end Interpose
