import Mathlib.Data.List.DropRight
import Mathlib.Data.List.Induction
import Interpose.Session.Recorder

/-!
# What recorders answer

A `RecordingInterceptor` is told responses, is handed calls and is cleared, in any order. Its
answers depend on the responses that it was told before, the last one for a qualified name counting,
and what it keeps are the calls since it was cleared. Two methods have one qualified name only if
the separator runs through the name of a type and the name of a method.
-/

namespace Interpose

/-! ### Qualified names -/

/-- Texts around a separator are told apart, unless one of them begins with the other and goes on
into the separator. -/
theorem colon_mem_of_append_eq {xs ys zs ws : List Char}
    (h : xs ++ (':' :: ':' :: ys) = zs ++ (':' :: ':' :: ws)) :
    (xs = zs ∧ ys = ws) ∨ (':' ∈ xs ∧ ':' ∈ ws) ∨ (':' ∈ zs ∧ ':' ∈ ys) := by
  have hlonger {xs ys zs ws as : List Char} (hzs : zs = xs ++ as)
      (hrest : ':' :: ':' :: ys = as ++ (':' :: ':' :: ws)) :
      (xs = zs ∧ ys = ws) ∨ (':' ∈ zs ∧ ':' ∈ ys) := by
    match as, hrest with
    | [], hrest =>
      simp only [List.nil_append, List.cons.injEq, true_and] at hrest
      exact .inl ⟨by rw [hzs, List.append_nil], hrest⟩
    | [c], hrest =>
      simp only [List.cons_append, List.nil_append, List.cons.injEq, true_and] at hrest
      exact .inr ⟨by simp [hzs, ← hrest.1], by simp [hrest.2]⟩
    | c :: c' :: as, hrest =>
      simp only [List.cons_append, List.cons.injEq] at hrest
      exact .inr ⟨by simp [hzs, ← hrest.1], by simp [hrest.2.2]⟩
  obtain ⟨as, hzs, hrest⟩ | ⟨as, hxs, hrest⟩ := List.append_eq_append_iff.1 h
  · obtain hsame | hmixed := hlonger hzs hrest
    · exact .inl hsame
    · exact .inr (.inr hmixed)
  · obtain ⟨hsame, hsame'⟩ | hmixed := hlonger hxs hrest
    · exact .inl ⟨hsame.symm, hsame'.symm⟩
    · exact .inr (.inl hmixed)

theorem eq_or_colon_of_qualified_eq {typeName methodName : String} {m : MethodIdentity}
    (h : typeName ++ "::" ++ methodName = m.qualifiedName) :
    (typeName = m.typeName ∧ methodName = m.methodName) ∨
      (':' ∈ typeName.toList ∧ ':' ∈ m.methodName.toList) ∨
      (':' ∈ m.typeName.toList ∧ ':' ∈ methodName.toList) := by
  have hlists := congrArg String.toList h
  simp only [MethodIdentity.qualifiedName, String.toList_append, List.append_assoc] at hlists
  obtain ⟨htype, hmethod⟩ | hmixed := colon_mem_of_append_eq hlists
  · exact .inl ⟨String.toList_inj.1 htype, String.toList_inj.1 hmethod⟩
  · exact .inr hmixed

/-! ### Steps -/

inductive RecorderStep where
  | respond (typeName methodName : String) (answer : Value)
  | respondByDefault (answer : Value)
  | dispatch (call : RecordedCall)
  | clear
  deriving DecidableEq

namespace RecorderStep

/-- The response that a step gives for the methods of a qualified name. -/
def answerNamed? (name : String) : RecorderStep → Option Value
  | respond typeName methodName answer =>
    if typeName ++ "::" ++ methodName = name then some answer else none
  | _ => none

/-- The response that a step gives for a method of a type. -/
def answerFor? (typeName methodName : String) : RecorderStep → Option Value
  | respond typeName' methodName' answer =>
    if typeName' = typeName ∧ methodName' = methodName then some answer else none
  | _ => none

def default? : RecorderStep → Option Value
  | respondByDefault answer => some answer
  | _ => none

def call? : RecorderStep → Option RecordedCall
  | dispatch call => some call
  | _ => none

end RecorderStep

namespace Recorder

def perform (r : Recorder) : RecorderStep → Recorder
  | .respond typeName methodName answer => r.respond typeName methodName answer
  | .respondByDefault answer => r.respondByDefault answer
  | .dispatch call => (r.intercept call.target call.args call.method).2
  | .clear => r.clear

def performAll (r : Recorder) (steps : List RecorderStep) : Recorder := steps.foldl perform r

/-- The last value that steps give, if any. -/
def last? (value? : RecorderStep → Option Value) (steps : List RecorderStep) : Option Value :=
  steps.reverse.findSome? value?

def lastDefault (steps : List RecorderStep) : Value := (last? RecorderStep.default? steps).getD .null

/-- The calls that steps dispatch behind the last one that clears. -/
def dispatched (steps : List RecorderStep) : List RecordedCall :=
  (steps.rtakeWhile (· ≠ .clear)).filterMap RecorderStep.call?

/-- The last response that steps give for the qualified name of a method is for another method. -/
def Confused (steps : List RecorderStep) (m : MethodIdentity) : Prop :=
  ∃ before typeName methodName answer after,
    steps = before ++ .respond typeName methodName answer :: after ∧
    typeName ++ "::" ++ methodName = m.qualifiedName ∧
    ¬(typeName = m.typeName ∧ methodName = m.methodName) ∧
    ∀ step ∈ after, step.answerNamed? m.qualifiedName = none

variable {steps : List RecorderStep} {step : RecorderStep} {m : MethodIdentity}

theorem performAll_snoc (r : Recorder) (steps : List RecorderStep) (step : RecorderStep) :
    r.performAll (steps ++ [step]) = (r.performAll steps).perform step :=
  List.foldl_concat ..

theorem last?_snoc (value? : RecorderStep → Option Value) (steps : List RecorderStep)
    (step : RecorderStep) : last? value? (steps ++ [step]) = (value? step).or (last? value? steps) := by
  simp only [last?, List.reverse_append, List.findSome?_append, List.reverse_singleton,
    List.findSome?_singleton]

theorem dispatched_snoc (steps : List RecorderStep) (step : RecorderStep) :
    dispatched (steps ++ [step]) =
      if step = .clear then [] else dispatched steps ++ step.call?.toList := by
  by_cases h : step = .clear
  · simp [dispatched, h]
  · cases hcall : step.call? <;> simp [dispatched, h, hcall]

/-! ### What one step changes -/

theorem lookup_perform (r : Recorder) (step : RecorderStep) (name : String) :
    (r.perform step).responses.lookup name =
      (step.answerNamed? name).or (r.responses.lookup name) := by
  cases step with
  | respond typeName methodName answer =>
    by_cases h : typeName ++ "::" ++ methodName = name
    · simp [perform, respond, RecorderStep.answerNamed?, h]
    · have hne : (name == typeName ++ "::" ++ methodName) = false := by
        simpa using fun heq => h heq.symm
      simp [perform, respond, RecorderStep.answerNamed?, h, List.lookup_cons, hne]
  | respondByDefault answer => rfl
  | dispatch call => rfl
  | clear => rfl

theorem fallback_perform (r : Recorder) (step : RecorderStep) :
    (r.perform step).fallback = step.default?.getD r.fallback := by
  cases step <;> rfl

theorem calls_perform (r : Recorder) (step : RecorderStep) :
    (r.perform step).calls = if step = .clear then [] else r.calls ++ step.call?.toList := by
  cases step with
  | respond typeName methodName answer => exact (List.append_nil _).symm
  | respondByDefault answer => exact (List.append_nil _).symm
  | dispatch call => exact calls_intercept ..
  | clear => rfl

/-! ### Runs -/

theorem lookup_performAll (steps : List RecorderStep) (name : String) :
    (start.performAll steps).responses.lookup name = last? (RecorderStep.answerNamed? name) steps := by
  induction steps using List.reverseRecOn with
  | nil => rfl
  | append_singleton steps step ih => rw [performAll_snoc, lookup_perform, last?_snoc, ih]

theorem fallback_performAll (steps : List RecorderStep) :
    (start.performAll steps).fallback = lastDefault steps := by
  induction steps using List.reverseRecOn with
  | nil => rfl
  | append_singleton steps step ih =>
    rw [performAll_snoc, fallback_perform, ih, lastDefault, lastDefault, last?_snoc]
    cases step.default? <;> rfl

theorem calls_performAll (steps : List RecorderStep) :
    (start.performAll steps).calls = dispatched steps := by
  induction steps using List.reverseRecOn with
  | nil => rfl
  | append_singleton steps step ih => rw [performAll_snoc, calls_perform, dispatched_snoc, ih]

/-! ### Methods that are told apart -/

theorem answerFor?_eq_none (h : step.answerNamed? m.qualifiedName = none) :
    step.answerFor? m.typeName m.methodName = none := by
  cases step with
  | respond typeName methodName answer =>
    refine if_neg fun ⟨htype, hmethod⟩ => ?_
    rw [RecorderStep.answerNamed?, htype, hmethod] at h
    exact nomatch (if_pos rfl).symm.trans h
  | respondByDefault answer => rfl
  | dispatch call => rfl
  | clear => rfl

/-- A method without a colon in its names is told apart from all others. -/
theorem not_confused (htype : ':' ∉ m.typeName.toList) (hmethod : ':' ∉ m.methodName.toList) :
    ¬Confused steps m := by
  intro ⟨_, _, _, _, _, _, hname, hother, _⟩
  obtain ⟨_, hcolon⟩ | ⟨hcolon, _⟩ := (eq_or_colon_of_qualified_eq hname).resolve_left hother
  · exact hmethod hcolon
  · exact htype hcolon

theorem Confused.snoc (h : Confused steps m)
    (hstep : step.answerNamed? m.qualifiedName = none) : Confused (steps ++ [step]) m := by
  obtain ⟨before, typeName, methodName, answer, after, hsplit, hname, hother, hafter⟩ := h
  refine ⟨before, typeName, methodName, answer, after ++ [step], ?_, hname, hother, ?_⟩
  · rw [hsplit, List.append_assoc, List.cons_append]
  · exact List.forall_mem_append.2 ⟨hafter, List.forall_mem_singleton.2 hstep⟩

theorem last?_answerNamed? (h : ¬Confused steps m) :
    last? (RecorderStep.answerNamed? m.qualifiedName) steps =
      last? (RecorderStep.answerFor? m.typeName m.methodName) steps := by
  induction steps using List.reverseRecOn with
  | nil => rfl
  | append_singleton steps step ih =>
    rw [last?_snoc, last?_snoc]
    cases hstep : step.answerNamed? m.qualifiedName with
    | none => rw [answerFor?_eq_none hstep, ih fun hconfused => h (hconfused.snoc hstep)]
    | some given =>
      cases step with
      | respondByDefault answer => cases hstep
      | dispatch call => cases hstep
      | clear => cases hstep
      | respond typeName methodName answer =>
        obtain ⟨hname, hgiven⟩ := Option.ite_none_right_eq_some.1 hstep
        have hsame : typeName = m.typeName ∧ methodName = m.methodName := by
          by_contra hother
          exact h ⟨steps, typeName, methodName, answer, [], rfl, hname, hother,
            fun step hmem => (nomatch hmem)⟩
        rw [RecorderStep.answerFor?, if_pos hsame, ← hgiven]
        rfl

theorem last?_of_split {value? : RecorderStep → Option Value} {answer : Value}
    {before after : List RecorderStep} (hstep : value? step = some answer)
    (hafter : ∀ later ∈ after, value? later = none) :
    last? value? (before ++ step :: after) = some answer := by
  refine List.findSome?_eq_some_iff.2
    ⟨after.reverse, step, before.reverse, by simp, hstep, fun later hlater => ?_⟩
  exact hafter later (List.mem_reverse.1 hlater)

/-- The answer to a call is the last response for its method, or the default, and the calls kept are
those dispatched since the last clearing. Only where the last response for the qualified name of the
method was given for another method is that response the answer. -/
theorem intercept_performAll (steps : List RecorderStep) (call : RecordedCall) :
    let r := start.performAll steps
    let answer := (r.intercept call.target call.args call.method).1
    (¬Confused steps call.method →
      answer = (last? (RecorderStep.answerFor? call.method.typeName call.method.methodName)
        steps).getD (lastDefault steps)) ∧
    (Confused steps call.method → ∃ typeName methodName,
      .respond typeName methodName answer ∈ steps ∧
      typeName ++ "::" ++ methodName = call.method.qualifiedName ∧
      ¬(typeName = call.method.typeName ∧ methodName = call.method.methodName) ∧
      ((':' ∈ typeName.toList ∧ ':' ∈ call.method.methodName.toList) ∨
        (':' ∈ call.method.typeName.toList ∧ ':' ∈ methodName.toList))) ∧
    r.calls = dispatched steps ∧
    (r.intercept call.target call.args call.method).2.calls = dispatched steps ++ [call] := by
  intro r answer
  have hanswer : answer =
      (last? (RecorderStep.answerNamed? call.method.qualifiedName) steps).getD
        (lastDefault steps) := by
    rw [← lookup_performAll, ← fallback_performAll]
    rfl
  refine ⟨fun h => ?_, fun h => ?_, calls_performAll steps, ?_⟩
  · rw [hanswer, last?_answerNamed? h]
  · obtain ⟨before, typeName, methodName, given, after, hsplit, hname, hother, hafter⟩ := h
    have hlast : last? (RecorderStep.answerNamed? call.method.qualifiedName) steps = some given := by
      rw [hsplit]
      exact last?_of_split (if_pos hname) hafter
    rw [hlast, Option.getD_some] at hanswer
    refine ⟨typeName, methodName, ?_, hname, hother,
      (eq_or_colon_of_qualified_eq hname).resolve_left hother⟩
    rw [hanswer, hsplit]
    exact List.mem_append_right _ List.mem_cons_self
  · rw [calls_intercept, calls_performAll]

def writeLine : MethodIdentity := ⟨⟨0⟩, ⟨0⟩, "Console", "WriteLine", ⟨[.string], .void, true⟩⟩

def canned : List RecorderStep := [
  .respond "Console" "WriteLine" (.int32 8),
  .dispatch ⟨.null, [], writeLine⟩,
  .clear,
  .respondByDefault (.str "default"),
  .respond "Console" "WriteLine" (.int32 9),
  .dispatch ⟨.null, [.str "hi"], writeLine⟩]

theorem intercept_performAll_canned :
    ¬Confused canned writeLine ∧
      ((start.performAll canned).intercept .null [] writeLine).1 = .int32 9 ∧
      (start.performAll canned).calls = [⟨.null, [.str "hi"], writeLine⟩] := by
  have hclear : ¬Confused canned writeLine := not_confused (by decide) (by decide)
  obtain ⟨hanswer, _, hcalls, _⟩ := intercept_performAll canned ⟨.null, [], writeLine⟩
  exact ⟨hclear, (hanswer hclear).trans (by decide), hcalls.trans (by decide)⟩

/-- The response for one method answers calls of another one. -/
theorem intercept_confused :
    let steps : List RecorderStep := [.respond "A" "B::C" (.int32 1)]
    let m : MethodIdentity := ⟨⟨0⟩, ⟨0⟩, "A::B", "C", ⟨[], .void, true⟩⟩
    ((start.performAll steps).intercept .null [] m).1 = .int32 1 ∧
      (last? (RecorderStep.answerFor? m.typeName m.methodName) steps).getD (lastDefault steps) =
        .null := by
  decide

end Recorder

end Interpose
