import Interpose.Interception.Expansion
import Interpose.Journal

/-!
# Redirecting the calls of a body

One walk over the code of a body (`CallSiteRewriter::rewrite_body`) copies every instruction but
calls, and replaces each call by its expansion. The new slots are declared behind the old ones.
Nothing is changed in place: the walk builds a draft, which either becomes the redirected body or is
dropped with a reason.
-/

namespace Interpose

inductive RedirectError where
  | signatureResolution (method : String) (position : Nat) (reason : Unresolvable)
  | resourceExhausted (method : String) (limit : Nat)
  | methodNotFound (name : String)
  | noBody (name : String)
  deriving DecidableEq, Repr

def RedirectError.message : RedirectError → String
  | .signatureResolution method position reason =>
    "cannot resolve call signature at instruction " ++ Nat.repr position ++ " in '" ++ method
      ++ "': " ++ reason.message
  | .resourceExhausted method limit =>
    "local slot limit of " ++ Nat.repr limit ++ " exceeded in '" ++ method ++ "'"
  | .methodNotFound name => "method not found: " ++ name
  | .noBody name => "method '" ++ name ++ "' has no body to rewrite"

structure CallSite where
  position : Nat
  callee : MethodToken
  slots : CallSiteSlots
  /-- Where the expansion starts in the new code, and where it ends. -/
  start : Nat
  stop : Nat
  deriving DecidableEq, Repr

/-- The new code of a body with what it needs, not yet put in place. -/
structure Redirected where
  code : List Instr
  newLocals : List DataType
  callSites : List CallSite
  deriving DecidableEq, Repr

/-- Puts the new code in place and declares the new slots behind the old ones. -/
def Redirected.commit (r : Redirected) (b : Body) : Body := ⟨b.locals ++ r.newLocals, r.code⟩

/-- The new code of the part of a body that was walked over. -/
structure Draft where
  code : Array Instr
  slots : SlotAllocator
  callSites : Array CallSite

/-- Why a walk ended early, and the calls that were replaced before. -/
structure WalkFailure where
  error : RedirectError
  callSites : Array CallSite

namespace Draft

def start (existing limit : Nat) : Draft := ⟨#[], .start existing limit, #[]⟩

def copy (i : Instr) (d : Draft) : Draft := { d with code := d.code.push i }

def replace (m : Module) (method : String) (position : Nat) (i : Instr) :
    Draft → Except WalkFailure Draft
  | ⟨code, slots, callSites⟩ =>
    match m.describe i with
    | .error reason => .error ⟨.signatureResolution method position reason, callSites⟩
    | .ok callee =>
      let limit := slots.limit
      match callee.allocate slots with
      | none => .error ⟨.resourceExhausted method limit, callSites⟩
      | some (s, slots) =>
        let start := code.size
        let code := code ++ (callee.expansion s).map Instr.op
        .ok ⟨code, slots, callSites.push ⟨position, callee.method, s, start, code.size⟩⟩

/-- Walks over code that starts at a position, up to the first call that cannot be replaced. -/
def walk (m : Module) (method : String) : Draft → Nat → List Instr → Except WalkFailure Draft
  | d, _, [] => .ok d
  | d, position, i :: rest =>
    if i.isCall then
      match d.replace m method position i with
      | .ok d => walk m method d (position + 1) rest
      | .error e => .error e
    else walk m method (d.copy i) (position + 1) rest

def finish (d : Draft) : Redirected := ⟨d.code.toList, d.slots.staged.toList, d.callSites.toList⟩

end Draft

def CallSite.line (m : Module) (method : String) (site : CallSite) : JournalLine :=
  ⟨.debug, .expansion, method ++ ": call to " ++ m.qualifiedName site.callee ++ " at "
    ++ Nat.repr site.position ++ " expanded to " ++ Nat.repr (site.stop - site.start)
    ++ " instructions"⟩

/-- What an attempt to redirect a body leaves behind: lines for the calls replaced up to its end or
failure, and the redirected body or the reason why there is none. -/
structure BodyAttempt where
  journal : List JournalLine
  result : Except RedirectError Redirected

/-- Redirects the calls of a body for a module, which need not contain it. `method` names the body
in messages, and `limit` bounds the slots of the new body. -/
def Module.attemptBody (m : Module) (method : String) (b : Body) (limit : Nat) : BodyAttempt :=
  match (Draft.start b.locals.length limit).walk m method 0 b.code with
  | .ok draft => ⟨draft.callSites.toList.map (CallSite.line m method), .ok draft.finish⟩
  | .error e => ⟨e.callSites.toList.map (CallSite.line m method), .error e.error⟩

def Module.redirectBody (m : Module) (method : String) (b : Body) (limit : Nat) :
    Except RedirectError Redirected :=
  (m.attemptBody method b limit).result

end Interpose
