import Interpose.Interception.Body

/-!
# Redirecting calls

A redirector (`CallSiteRewriter`) sends the calls that methods of a module make through the
interceptor: those of one method (`rewrite_method`, `rewrite_named`), of several or of all
(`rewrite_methods`, `rewrite_all`). Every request either changes all methods it is about or leaves
the module as it was: bodies are prepared first (`prepare`) and put in place only when all of them
are ready (`commit`).
-/

namespace Interpose

/-- The most local slots that any body may declare. -/
def slotCeiling : Nat := 65535

/-- Redirects the calls of methods, with a bound on the local slots of a redirected body. -/
structure Redirector where
  maxLocals : Nat
  deriving DecidableEq, Repr

def Redirector.standard : Redirector := ⟨65534⟩

/-- A redirector with a bound, which is lowered to what a body can declare. -/
def Redirector.withMaxLocals (n : Nat) : Redirector := ⟨min n slotCeiling⟩

structure Report where
  method : MethodToken
  callSites : Nat
  localsAdded : Nat
  instructionsBefore : Nat
  instructionsAfter : Nat
  deriving DecidableEq, Repr

inductive Missing where
  | type (name : String)
  | method (typeName name : String)
  | body (typeName name : String)
  deriving DecidableEq, Repr

def Missing.message : Missing → String
  | .type name => "type '" ++ name ++ "' not found"
  | .method typeName name => "method '" ++ name ++ "' not found on '" ++ typeName ++ "'"
  | .body typeName name => "method '" ++ typeName ++ "::" ++ name ++ "' has no body"

inductive Outcome where
  | redirected (report : Report)
  | notFound (missing : Missing)
  deriving DecidableEq, Repr

/-- What a request leaves behind: journal lines, the module after it, and its answer. -/
structure Attempt (α : Type) where
  journal : List JournalLine
  module : Module
  result : Except RedirectError α

structure Prepared where
  method : MethodToken
  redirected : Redirected
  report : Report

namespace Redirector

/-- Makes the new body of a method ready; the module is not changed. -/
def prepare (r : Redirector) (m : Module) (t : MethodToken) :
    List JournalLine × Except RedirectError Prepared :=
  let name := m.qualifiedName t
  match m.method? t with
  | none => ([], .error (.methodNotFound name))
  | some method =>
    match method.body with
    | none => ([], .error (.noBody name))
    | some body =>
      let attempt := m.attemptBody name body r.maxLocals
      (attempt.journal, attempt.result.map fun redirected =>
        ⟨t, redirected,
          { method := t
            callSites := redirected.callSites.length
            localsAdded := redirected.newLocals.length
            instructionsBefore := body.code.length
            instructionsAfter := redirected.code.length }⟩)

def commitLine (name : String) (p : Prepared) (before : Nat) : JournalLine :=
  ⟨.info, .redirection, "rewrote " ++ name ++ ": " ++ Nat.repr p.redirected.callSites.length
    ++ " call sites, " ++ Nat.repr before ++ " -> " ++ Nat.repr p.redirected.code.length
    ++ " instructions, " ++ Nat.repr p.redirected.newLocals.length ++ " locals added"⟩

def commit (m : Module) (p : Prepared) : List JournalLine × Module :=
  match (m.method? p.method).bind (·.body) with
  | none => ([], m)
  | some body =>
    ([commitLine (m.qualifiedName p.method) p body.code.length],
      m.setBody p.method (p.redirected.commit body))

def redirectMethod (r : Redirector) (m : Module) (t : MethodToken) : Attempt Report :=
  match r.prepare m t with
  | (journal, .error e) => ⟨journal, m, .error e⟩
  | (journal, .ok p) =>
    let (line, m) := commit m p
    ⟨journal ++ line, m, .ok p.report⟩

def missingLine (text : String) : JournalLine := ⟨.warn, .redirection, text⟩

/-- Redirects the calls of a method by the names of its type and itself. A missing type, method or
body is an answer, not an error. -/
def redirectNamed (r : Redirector) (m : Module) (typeName method : String) : Attempt Outcome :=
  match m.findType? typeName with
  | none =>
    ⟨[missingLine ("type '" ++ typeName ++ "' not found in module '" ++ m.name ++ "'")], m,
      .ok (.notFound (.type typeName))⟩
  | some type =>
    match m.findMethod? type method with
    | none =>
      ⟨[missingLine ("method '" ++ typeName ++ "::" ++ method ++ "' not found")], m,
        .ok (.notFound (.method typeName method))⟩
    | some t =>
      if (m.method? t).any (·.body.isNone) then
        ⟨[missingLine ("method '" ++ typeName ++ "::" ++ method ++ "' has no body")], m,
          .ok (.notFound (.body typeName method))⟩
      else
        let attempt := r.redirectMethod m t
        ⟨attempt.journal, attempt.module, attempt.result.map .redirected⟩

/-- Prepares methods behind those already prepared, in reverse, each method once, up to the first
that cannot be. -/
def prepareAll (r : Redirector) (m : Module) :
    List JournalLine → List Prepared → List MethodToken →
      List JournalLine × Except RedirectError (List Prepared)
  | journal, ready, [] => (journal, .ok ready.reverse)
  | journal, ready, t :: rest =>
    if ready.any (·.method = t) then prepareAll r m journal ready rest
    else
      match r.prepare m t with
      | (lines, .error e) => (journal ++ lines, .error e)
      | (lines, .ok p) => prepareAll r m (journal ++ lines) (p :: ready) rest

def commitAll : List JournalLine → Module → List Prepared → List JournalLine × Module
  | journal, m, [] => (journal, m)
  | journal, m, p :: rest =>
    let (line, m) := commit m p
    commitAll (journal ++ line) m rest

/-- Redirects the calls of several methods, or of none if one cannot be redirected. -/
def redirectMethods (r : Redirector) (m : Module) (ts : List MethodToken) : Attempt (List Report) :=
  match r.prepareAll m [] [] ts with
  | (journal, .error e) => ⟨journal, m, .error e⟩
  | (journal, .ok ready) =>
    let (journal, m) := commitAll journal m ready
    ⟨journal, m, .ok (ready.map (·.report))⟩

def methodsWithBody (m : Module) : List MethodToken :=
  (m.methods.zipIdx.filter (·.1.body.isSome)).map fun p => .ofPosition p.2

/-- Redirects the calls of every method that has a body, or of none. -/
def redirectAll (r : Redirector) (m : Module) : Attempt (List Report) :=
  r.redirectMethods m (methodsWithBody m)

end Redirector

end Interpose
