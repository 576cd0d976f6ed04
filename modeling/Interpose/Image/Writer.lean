import Interpose.Module
import Interpose.Image.LittleEndian

/-!
# Writing images

The binary form of a module, as `encode` writes it: magic number, version, flags and name, then the
table of types, then the table of methods with their bodies. Numbers are little-endian, counts and
lengths have 32 bits, strings are UTF-8 behind their length in bytes. Each function of `Writer` is
one part.
-/

namespace Interpose.Image

def writeU16 (n : UInt16) : List UInt8 := bytesOfNat 2 n.toNat

def writeU32 (n : UInt32) : List UInt8 := bytesOfNat 4 n.toNat

def writeU64 (n : UInt64) : List UInt8 := bytesOfNat 8 n.toNat

/-- A count or length: its lowest 32 bits. -/
def writeCount (n : Nat) : List UInt8 := bytesOfNat 4 n

def utf8 (s : String) : List UInt8 := s.toByteArray.data.toList

def writeString (s : String) : List UInt8 := writeCount (utf8 s).length ++ utf8 s

def writeList {α : Type} (item : α → List UInt8) (items : List α) : List UInt8 :=
  writeCount items.length ++ items.flatMap item

def writeType (t : TypeToken) : List UInt8 := writeU32 t.index

def writeMethod (m : MethodToken) : List UInt8 := writeU32 m.index

def writeDataType : DataType → List UInt8
  | .bool => [0x01]
  | .int32 => [0x02]
  | .int64 => [0x03]
  | .float64 => [0x04]
  | .string => [0x05]
  | .object => [0x06]
  | .objectArray => [0x07]
  | .classType t => 0x08 :: writeType t

def writeReturnType : ReturnType → List UInt8
  | .void => [0x00]
  | .value t => 0x01 :: writeDataType t

def writeSignature (s : Signature) : List UInt8 :=
  writeList writeDataType s.params ++ (writeReturnType s.returns ++ [if s.isStatic then 1 else 0])

def writeOp : Op → List UInt8
  | .nop => [0x00]
  | .ldarg i => 0x01 :: writeU16 i
  | .starg i => 0x02 :: writeU16 i
  | .ldloc s => 0x03 :: writeU32 s.index
  | .stloc s => 0x04 :: writeU32 s.index
  | .ldnull => [0x05]
  | .ldcI4 v => 0x06 :: writeU32 v.toUInt32
  | .ldcI8 v => 0x07 :: writeU64 v.toUInt64
  | .ldcR8 v => 0x08 :: writeU64 v.bits
  | .ldstr s => 0x09 :: writeString s
  | .dup => [0x0a]
  | .pop => [0x0b]
  | .add => [0x0c]
  | .sub => [0x0d]
  | .mul => [0x0e]
  | .ceq => [0x0f]
  | .clt => [0x10]
  | .label l => 0x11 :: writeU32 l.id
  | .br l => 0x12 :: writeU32 l.id
  | .brtrue l => 0x13 :: writeU32 l.id
  | .brfalse l => 0x14 :: writeU32 l.id
  | .ret => [0x15]
  | .box t => 0x16 :: writeDataType t
  | .unboxAny t => 0x17 :: writeDataType t
  | .newobj t => 0x18 :: writeType t
  | .newarr t => 0x19 :: writeDataType t
  | .stelemRef => [0x1a]
  | .ldelemRef => [0x1b]
  | .ldlen => [0x1c]
  | .ldtoken (.type t) => 0x1d :: writeType t
  | .ldtoken (.method m) => 0x1e :: writeMethod m
  | .ldftn m => 0x1f :: writeMethod m
  | .resolveMethod => [0x20]
  | .getInterceptor => [0x21]
  | .intercept => [0x22]

def writeInstr : Instr → List UInt8
  | .call (.direct m) => 0x40 :: writeMethod m
  | .call (.indirect arity) => 0x41 :: writeU16 arity
  | .op o => writeOp o

def writeBody : Option Body → List UInt8
  | none => [0]
  | some b => 1 :: (writeList writeDataType b.locals ++ writeList writeInstr b.code)

def writeTypeDef (t : TypeDef) : List UInt8 :=
  writeString t.name ++ writeList writeMethod t.methods

def writeMethodDef (m : MethodDef) : List UInt8 :=
  writeType m.declaringType
    ++ (writeString m.name ++ (writeSignature m.signature ++ writeBody m.body))

/-- The first four bytes of every image: the letters CWIL. -/
def magic : List UInt8 := [0x43, 0x57, 0x49, 0x4c]

def version : UInt16 := 1

/-- The binary form of a module. Counts and lengths from 2^32 on are cut to their low 32 bits, so
only modules below that size can be read back. -/
def encode (m : Module) : List UInt8 :=
  magic ++ (writeU16 version ++ (writeU16 0 ++ (writeString m.name
    ++ (writeList writeTypeDef m.types ++ writeList writeMethodDef m.methods))))

end Interpose.Image
