import Interpose.Module

/-!
# Building modules

`ModuleBuilder` builds a module by adding types and methods one at a time. Tokens are handed out in
the order of insertion, so code can name a method before its body is given (`reserve`, `set_body`).
-/

namespace Interpose

structure Builder where
  module : Module

namespace Builder

def start (name : String) : Builder := ⟨.empty name⟩

def addType (b : Builder) (name : String) : TypeToken × Builder :=
  (.ofPosition b.module.types.length,
    ⟨{ b.module with types := b.module.types ++ [⟨name, []⟩] }⟩)

/-- Adds a method, to the method table and to the list of its declaring type. A type token without
a type leaves the method out of all lists. -/
def push (b : Builder) (type : TypeToken) (name : String) (signature : Signature)
    (body : Option Body) : MethodToken × Builder :=
  let token := MethodToken.ofPosition b.module.methods.length
  (token,
    ⟨{ b.module with
        methods := b.module.methods ++ [⟨type, name, signature, body⟩]
        types := b.module.types.modify type.position fun t =>
          { t with methods := t.methods ++ [token] } }⟩)

def addMethod (b : Builder) (type : TypeToken) (name : String) (signature : Signature)
    (body : Body) : MethodToken × Builder :=
  b.push type name signature (some body)

def addNative (b : Builder) (type : TypeToken) (name : String) (signature : Signature) :
    MethodToken × Builder :=
  b.push type name signature none

def reserve (b : Builder) (type : TypeToken) (name : String) (signature : Signature) :
    MethodToken × Builder :=
  b.push type name signature none

/-- Gives a method its body; tokens that were never handed out change nothing. -/
def setBody (b : Builder) (method : MethodToken) (body : Body) : Builder :=
  ⟨b.module.setBody method body⟩

def finish (b : Builder) : Module := b.module

end Builder

end Interpose
