import JxCore.Basic
import JxCore.Lib.Reader

/-!
# Code files (`core/load.c`)

A code file holds the classes of a library as the compiler has written them: one integer, string or
byte after the other, with the length of each table in front of it. `loadSharedLibrary` goes through
the file once and fills in the descriptors.

The model begins after the names of the needed libraries. All memory for descriptors is there; only
the temporary memory for the names of interfaces has a bound.
-/

namespace JxCore.CodeFile

open Lib (Table Reader)
open Lib.Reader (times scan scanList table)

/-- `jint`. -/
abbrev JInt := BitVec 32

abbrev Byte := BitVec 8

/-- A string, as the bytes before the terminating zero. -/
abbrev Str := List Byte

/-- An access outside the file or an array. -/
def outside : Stop := .wild

/-- A check of the source. -/
def require (cond : Prop) [Decidable cond] (stop : Stop) : Except Stop Unit :=
  if cond then pure () else throw stop

/-! ## Strings -/

/-- The string that begins here. -/
def cstr (p : List Byte) : Except Stop Str :=
  if 0 ∈ p then pure (p.takeWhile (· ≠ 0)) else throw outside

/-- `while (*p != 0) p++; p++`. -/
def afterString (p : List Byte) : Except Stop (List Byte) :=
  if 0 ∈ p then pure (p.dropWhile (· ≠ 0)).tail else throw outside

def afterStrings : Nat → List Byte → Except Stop (List Byte)
  | 0, p => pure p
  | n + 1, p => do afterStrings n (← afterString p)

/-- `readInt`. -/
def readInt : Reader Stop JInt := Reader.word outside

/-- `readByte`. -/
def readByte : Reader Stop Byte := Reader.byte outside

/-- `readString`. -/
def readString : Reader Stop Str := fun p => do
  let s ← cstr p
  return (s, ← afterString p)

/-- `codefilepos += n`, with the old position. -/
def skipBytes (n : JInt) : Reader Stop (List Byte) := fun p => do
  require (0 ≤ n.toInt ∧ n.toNat ≤ p.length) outside
  return (p, p.drop n.toNat)

/-- The places where a string begins in the next `left` bytes; `start` says that one begins here. -/
def stringStarts : Bool → Nat → List Byte → List (List Byte)
  | _, 0, _ => []
  | _, _ + 1, [] => []
  | start, left + 1, b :: p =>
    if start then (b :: p) :: stringStarts (b = 0) left p else stringStarts (b = 0) left p

/-- "read string table". The table points into the file. A negative size is left out: it moves the
position back. -/
def readStringTable : Reader Stop (List (List Byte)) := do
  let size ← readInt
  let p ← skipBytes size
  return stringStarts true size.toNat p

/-- The string with this number. Numbers behind the table go on from its last string. -/
def stringAt (strings : List (List Byte)) (id : JInt) : Except Stop Str :=
  if id.toInt < 0 then throw outside
  else
    match strings[id.toNat]? with
    | some p => cstr p
    | none =>
      match strings.getLast? with
      | none => pure []
      | some p => do cstr (← afterStrings (id.toNat - (strings.length - 1)) p)

/-- `readStringID`. -/
def readStringID (strings : List (List Byte)) : Reader Stop Str := do
  let id ← readInt
  StateT.lift (stringAt strings id)

/-! ## Symbols

The names in a symbol are strings in a descriptor, and numbers of strings in a file. -/

/-- What the kinds of symbols carry, in the order of their numbers, which begin at 1. -/
inductive SymbolKind (ν : Type) where
  | domainZero
  | exceptionHandler
  | depFunction (className methodName methodSignature : Str)
  | staticField (className : ν) (kind fieldOffset : JInt)
  | allocObject
  | class (className : ν)
  | directMethodCall (className methodName methodSignature : ν)
  | string (value : ν)
  | allocArray
  | allocMultiArray
  | longArithmetic (operation : JInt)
  | vmSupport (operation : JInt)
  | primitiveClass (primitiveType : JInt)
  | unresolvedJump (targetNCIndex : JInt)
  | vmAbsolute (operation : JInt)
  /-- The old version of stack maps, with its number of bits. -/
  | oldStackMap (nBits : JInt) (map : Table Byte)
  | stackMap (immediateNCIndexPre nBits : JInt) (map : Table Byte)
  | exceptionTable (targetNCIndex rangeStart rangeEnd : JInt) (className : ν)
  | currentThreadPointer
  | stackChunkSize
  | profile (kind : JInt)
  | methodDesc
  | tcbOffset (kind : JInt)
  deriving DecidableEq

/-- `SymbolDesc` and its extensions. -/
structure SymbolDesc (ν : Type) where
  immediateNCIndex : JInt
  numBytes : JInt
  nextInstrNCIndex : JInt
  kind : SymbolKind ν
  deriving DecidableEq

/-- The map of a stack map, whose length comes first and whose number of bits comes second. -/
def readStackMap (make : JInt → Table Byte → SymbolKind Str) : Reader Stop (SymbolKind Str) := do
  let nBytes ← readInt
  let nBits ← readInt
  let map ← times readByte nBytes.toInt.toNat
  return make nBits ⟨nBytes, map.val, map.property⟩

/-- The switch over the type of a symbol. -/
def readSymbolKind (strings : List (List Byte)) (type : JInt) : Reader Stop (SymbolKind Str) :=
  match type.toNat with
  | 0 => throw (.panic "Error: Symboltype 0")
  | 1 => return .domainZero
  | 2 => return .exceptionHandler
  | 3 => do return .depFunction (← readString) (← readString) (← readString)
  | 4 => do return .staticField (← readStringID strings) (← readInt) (← readInt)
  | 5 => return .allocObject
  | 6 => do return .class (← readStringID strings)
  | 7 => do
    return .directMethodCall (← readStringID strings) (← readStringID strings) (← readStringID strings)
  | 8 => do return .string (← readStringID strings)
  | 9 => return .allocArray
  | 10 => return .allocMultiArray
  | 11 => do return .longArithmetic (← readInt)
  | 12 => do return .vmSupport (← readInt)
  | 13 => do return .primitiveClass (← readInt)
  | 14 => do return .unresolvedJump (← readInt)
  | 15 => do return .vmAbsolute (← readInt)
  | 16 => readStackMap fun nBits map => .oldStackMap nBits map
  | 17 => do
    let immediateNCIndexPre ← readInt
    readStackMap fun nBits map => .stackMap immediateNCIndexPre nBits map
  | 18 => do return .exceptionTable (← readInt) (← readInt) (← readInt) (← readStringID strings)
  | 19 => return .currentThreadPointer
  | 20 => return .stackChunkSize
  | 21 => do return .profile (← readInt)
  | 22 => return .methodDesc
  | 23 => do return .tcbOffset (← readInt)
  | _ => throw (.panic "Unknown symbol")

/-- One round of the loop over the symbols of a method. -/
def readSymbol (strings : List (List Byte)) (numberOfCodeBytes : JInt) :
    Reader Stop (SymbolDesc Str) := do
  let type ← readInt
  let immediateNCIndex ← readInt
  let numBytes ← readInt
  let nextInstrNCIndex ← readInt
  StateT.lift <| require ((immediateNCIndex + numBytes).toInt ≤ numberOfCodeBytes.toInt)
    (.panic "wrong patch index")
  let kind ← readSymbolKind strings type
  return ⟨immediateNCIndex, numBytes, nextInstrNCIndex, kind⟩

/-! ## Methods -/

/-- `ByteCodeDesc`. -/
structure ByteCodeDesc where
  bytecodePos : JInt
  start : JInt
  «end» : JInt
  deriving DecidableEq

/-- `SourceLineDesc`. -/
structure SourceLineDesc where
  startBytecode : JInt
  lineNumber : JInt
  deriving DecidableEq

/-- The fields of a `MethodDesc` that come from the file. -/
structure Method (ν : Type) where
  name : ν
  signature : ν
  sizeLocalVars : JInt
  numberOfCodeBytes : JInt
  numberOfArgs : JInt
  argTypeMap : Table Byte
  returnType : JInt
  flags : JInt
  symbols : Table (SymbolDesc ν)
  bytecodeTable : Table ByteCodeDesc
  sourceLineTable : Table SourceLineDesc
  deriving DecidableEq

def SymbolKind.isExceptionTable {ν : Type} : SymbolKind ν → Bool
  | .exceptionTable _ _ _ _ => true
  | _ => false

/-- `MethodDesc`. -/
structure MethodDesc extends Method Str where
  codeOffset : JInt
  sizeOfExceptionTable : Nat
  deriving DecidableEq

def readByteCode : Reader Stop ByteCodeDesc := do
  let bytecodePos ← readInt
  let start ← readInt
  let «end» ← readInt
  return ⟨bytecodePos, start, «end»⟩

def readSourceLine : Reader Stop SourceLineDesc := do
  let startBytecode ← readInt
  let lineNumber ← readInt
  return ⟨startBytecode, lineNumber⟩

/-- The table `exceptionTable` gets one entry for each symbol of this kind. -/
def sizeOfExceptionTable {ν : Type} (symbols : List (SymbolDesc ν)) : Nat :=
  symbols.countP fun s => s.kind.isExceptionTable

/-- One round of the loop over the methods of a class; the state is `completeCodeBytes`. -/
def readMethod (strings : List (List Byte)) (completeCodeBytes : JInt) :
    Reader Stop (MethodDesc × JInt) := do
  let name ← readStringID strings
  let signature ← readStringID strings
  let sizeLocalVars ← readInt
  let numberOfCodeBytes ← readInt
  StateT.lift <| require (0 ≤ numberOfCodeBytes.toInt) (.assertion "numberOfCodeBytes >= 0")
  let numberOfArgTypeMapBytes ← readInt
  let numberOfArgs ← readInt
  let argTypeMap ← times readByte numberOfArgTypeMapBytes.toInt.toNat
  let returnType ← readInt
  let flags ← readInt
  let symbols ← table outside (readSymbol strings numberOfCodeBytes)
  let bytecodeTable ← table outside readByteCode
  let sourceLineTable ← table outside readSourceLine
  return ({
    name, signature, sizeLocalVars, numberOfCodeBytes, numberOfArgs
    argTypeMap := ⟨numberOfArgTypeMapBytes, argTypeMap.val, argTypeMap.property⟩
    returnType, flags, symbols, bytecodeTable, sourceLineTable
    codeOffset := completeCodeBytes
    sizeOfExceptionTable := sizeOfExceptionTable symbols.entries },
    completeCodeBytes + numberOfCodeBytes)

/-! ## Classes -/

/-- `FieldDesc`. The offset is a `char`. -/
structure FieldDesc where
  fieldName : Str
  fieldType : Str
  fieldOffset : BitVec 8
  deriving DecidableEq

/-- `CLASSTYPE_CLASS` and `CLASSTYPE_INTERFACE`. -/
inductive ClassType where
  | «class»
  | interface
  deriving DecidableEq

/-- A `ClassDesc *`: `java_lang_Object`, a class of this library, or one of another library. -/
inductive ClassRef where
  | object
  | own (i : Nat)
  | loaded (c : Nat)
  deriving DecidableEq

/-- `ClassDesc`. -/
structure ClassDesc where
  classType : ClassType
  name : Str
  superclass : Option ClassRef
  ifname : Table Str
  methods : Table MethodDesc
  instanceSize : JInt
  map : Table Byte
  fields : Table FieldDesc
  staticFieldsSize : JInt
  sfieldOffset : JInt
  staticsMap : Table Byte
  vtableSize : JInt
  /-- The three strings of each entry. -/
  vtableSym : List (Str × Str × Str)
  deriving DecidableEq

def objectName : Str := "java/lang/Object".toList.map fun c => BitVec.ofNat 8 c.toNat

/-- The superclass, with the classes of this library that are complete. `findClassDesc` searches the
libraries that were loaded before. -/
def findSuperclass (findClassDesc : Str → Option Nat) (complete : List Str) (supername : Str) :
    Except Stop (Option ClassRef) :=
  if supername = [] then pure none
  else if supername = objectName then pure (some .object)
  else
    match complete.idxOf? supername with
    | some i => pure (some (.own i))
    | none =>
      match findClassDesc supername with
      | some c => pure (some (.loaded c))
      | none => throw (.panic "find superclass")

/-- `malloc_tmp_stringtable`, with the number of bytes that are left. -/
def mallocTmpStringtable (free : Nat) (number : JInt) : Except Stop Nat := do
  require (4 * number.toInt.toNat ≤ free) (.panic "temp space not sufficient")
  return free - 4 * number.toInt.toNat

def readField (strings : List (List Byte)) : Reader Stop FieldDesc := do
  let fieldName ← readStringID strings
  let fieldType ← readStringID strings
  let fieldOffset ← readInt
  return ⟨fieldName, fieldType, fieldOffset.setWidth 8⟩

/-- How often `for (j = 0; j < vtableSize * 3; j += 3)` goes round. -/
def vtableRounds (vtableSize : JInt) : Nat := ((vtableSize * 3).toInt.toNat + 2) / 3

def readVtableEntry (strings : List (List Byte)) : Reader Stop (Str × Str × Str) := do
  let className ← readStringID strings
  let name ← readStringID strings
  let type ← readStringID strings
  let _ ← readInt
  return (className, name, type)

/-- What the loop over the classes passes on. -/
structure Progress where
  /-- The names of `allClasses[0 .. numberOfClasses - 1]`. -/
  complete : List Str
  completeCodeBytes : JInt
  completeVtableSize : JInt
  completeBytecodeSize : JInt
  sfieldsOffset : JInt
  /-- What is left of `tmp_mem`. -/
  free : Nat
  deriving DecidableEq

/-- One round of the loop over the classes. -/
def readClass (findClassDesc : Str → Option Nat) (strings : List (List Byte)) (s : Progress) :
    Reader Stop (ClassDesc × Progress) := do
  let name ← readStringID strings
  let supername ← readStringID strings
  let superclass ← StateT.lift (findSuperclass findClassDesc s.complete supername)
  let isinterface ← readInt
  let numberOfInterfaces ← readInt
  let free ← StateT.lift (mallocTmpStringtable s.free numberOfInterfaces)
  let ifname ← times (readStringID strings) numberOfInterfaces.toInt.toNat
  let numberOfMethods ← readInt
  let instanceSize ← readInt
  let map ← table outside readByte
  let fields ← table outside (readField strings)
  let staticFieldsSize ← readInt
  let staticsMap ← table outside readByte
  let bytecodeSize ← readInt
  let _ ← readInt
  let vtableSize ← readInt
  let vtableSym ← times (readVtableEntry strings) (vtableRounds vtableSize)
  let (methods, completeCodeBytes) ←
    scan (readMethod strings) numberOfMethods.toInt.toNat s.completeCodeBytes
  return ({
    classType := if isinterface ≠ 0 then .interface else .class
    name, superclass
    ifname := ⟨numberOfInterfaces, ifname.val, ifname.property⟩
    methods := ⟨numberOfMethods, methods.val, methods.property⟩
    instanceSize, map, fields, staticFieldsSize
    sfieldOffset := s.sfieldsOffset
    staticsMap, vtableSize
    vtableSym := vtableSym.val }, {
    complete := s.complete ++ [name]
    completeCodeBytes
    completeVtableSize := s.completeVtableSize + vtableSize
    completeBytecodeSize := s.completeBytecodeSize + bytecodeSize
    sfieldsOffset := s.sfieldsOffset + staticFieldsSize
    free })

/-! ## Libraries -/

/-- `SharedLibDesc`. -/
structure SharedLibDesc where
  «meta» : List (Str × Str)
  allClasses : Table ClassDesc
  code : List Byte
  codeBytes : JInt
  vtablesize : JInt
  bytecodes : JInt
  memSizeStaticFields : JInt
  deriving DecidableEq

/-- What the kernel has when it begins to read a file: the classes of the libraries that are loaded, and
the names in the table `vmsupport`. -/
structure Kernel where
  findClassDesc : Str → Option Nat
  vmsupportNames : List Str

/-- `numberVMOperations`. -/
def Kernel.numberVMOperations (k : Kernel) : Nat := k.vmsupportNames.length

/-- "load meta". The counter is compared with an unsigned number. -/
def readMeta : Reader Stop (List (Str × Str)) := do
  let numberOfMeta ← readInt
  let entries ← times (do return (← readString, ← readString)) numberOfMeta.toNat
  return entries.val

/-- One round of the loop over the "vmsymbol-table"; the state is `j`. -/
def readVMSymbol (k : Kernel) (j : Nat) : Reader Stop (Nat × Nat) := do
  let symbol ← readString
  StateT.lift <| require (j ≠ k.numberVMOperations) (.panic "to many symbols")
  return ((k.vmsupportNames.idxOf? symbol).getD 0, j + 1)

/-- "vmsymbol-table", with the new values of `vmsupport[j].index`. -/
def readVMSymbols (k : Kernel) : Reader Stop (List Nat) := do
  let count ← readInt
  let (indices, _) ← scan (readVMSymbol k) count.toInt.toNat 0
  return indices.val

/-- `readCode`. -/
def readCode (nbytes : JInt) : Reader Stop (List Byte) := do
  let p ← skipBytes nbytes
  return p.take nbytes.toNat

/-- "load classes", with the counters at the end. -/
def readClasses (k : Kernel) (strings : List (List Byte)) (free : Nat) :
    Reader Stop (Table ClassDesc × Progress) := do
  let count ← readInt
  let (classes, s) ← scan (readClass k.findClassDesc strings) count.toInt.toNat ⟨[], 0, 0, 0, 0, free⟩
  return (⟨count, classes.val, classes.property⟩, s)

/-- `loadSharedLibrary` from "load meta" on, with the new values of `vmsupport[j].index`. -/
def loadSharedLibrary (k : Kernel) (free : Nat) : Reader Stop (SharedLibDesc × List Nat) := do
  let «meta» ← readMeta
  let strings ← readStringTable
  let indices ← readVMSymbols k
  let (allClasses, s) ← readClasses k strings free
  let code ← readCode s.completeCodeBytes
  return ({
    «meta», allClasses, code
    codeBytes := s.completeCodeBytes
    vtablesize := s.completeVtableSize
    bytecodes := s.completeBytecodeSize
    memSizeStaticFields := s.sfieldsOffset }, indices)

/-- `findFieldOffset`. The offset is extended from `char` to `u4_t`, and a negative number of fields is
taken for a large one. -/
def findFieldOffset (c : ClassDesc) (fieldname : Str) : Except Stop (BitVec 32) :=
  match c.fields.entries.find? fun f => f.fieldName = fieldname with
  | some f => pure (f.fieldOffset.signExtend 32)
  | none => if c.fields.count.toInt < 0 then throw outside else pure (-1)

end JxCore.CodeFile
