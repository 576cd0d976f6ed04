import Interpose.Instruction
import Interpose.Decimal.Layout
import Interpose.Text.Quoted

/-!
# Listings

The text of an instruction, as `Display` of `Op` and `Instruction` writes it: its mnemonic and,
where it has one, its operand.
-/

namespace Interpose

def Label.text (l : Label) : String := "L" ++ Nat.repr l.id.toNat

def intText (n : Int) : String :=
  if n < 0 then "-" ++ Nat.repr n.natAbs else Nat.repr n.natAbs

def Op.text : Op → String
  | .nop => "nop"
  | .ldarg i => "ldarg " ++ Nat.repr i.toNat
  | .starg i => "starg " ++ Nat.repr i.toNat
  | .ldloc s => "ldloc " ++ Nat.repr s.position
  | .stloc s => "stloc " ++ Nat.repr s.position
  | .ldnull => "ldnull"
  | .ldcI4 v => "ldc.i4 " ++ intText v.toInt
  | .ldcI8 v => "ldc.i8 " ++ intText v.toInt
  | .ldcR8 v => "ldc.r8 " ++ Decimal.plain.text v
  | .ldstr s => "ldstr " ++ Text.quoted s
  | .dup => "dup"
  | .pop => "pop"
  | .add => "add"
  | .sub => "sub"
  | .mul => "mul"
  | .ceq => "ceq"
  | .clt => "clt"
  | .label l => l.text ++ ":"
  | .br l => "br " ++ l.text
  | .brtrue l => "brtrue " ++ l.text
  | .brfalse l => "brfalse " ++ l.text
  | .ret => "ret"
  | .box t => "box " ++ t.text
  | .unboxAny t => "unbox.any " ++ t.text
  | .newobj t => "newobj " ++ t.text
  | .newarr t => "newarr " ++ t.text
  | .stelemRef => "stelem.ref"
  | .ldelemRef => "ldelem.ref"
  | .ldlen => "ldlen"
  | .ldtoken t => "ldtoken " ++ t.text
  | .ldftn m => "ldftn " ++ m.text
  | .resolveMethod => "resolve.method"
  | .getInterceptor => "get.interceptor"
  | .intercept => "intercept"

def Instr.text : Instr → String
  | .call (.direct m) => "call " ++ m.text
  | .call (.indirect arity) => "calli " ++ Nat.repr arity.toNat
  | .op o => o.text

end Interpose
