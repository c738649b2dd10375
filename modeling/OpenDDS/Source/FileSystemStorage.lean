import Mathlib.Data.Nat.Init

/-!
The file names of `OpenDDS::FileSystemStorage` (dds/DCPS/FileSystemStorage.cpp): `b32h_encode` and
`b32h_decode` for characters that are signed bytes. A C string is a list of characters other than
NUL, with a NUL behind them in memory; `none` stands for a read behind that or outside `dec`.
-/
namespace OpenDDS.Source.FileSystemStorage

abbrev Character := BitVec 8

structure CString where
  chars : List Character
  terminated : 0 ∉ chars
  deriving DecidableEq

def lookup : List Character :=
  "0123456789ABCDEFGHIJKLMNOPQRSTUV".toList.map fun c => BitVec.ofNat 8 c.toNat

/-- The character `=`. -/
def padding : Character := 0x3d

/-- The number of characters for a last group of so many bytes. -/
def enc : List Nat := [0, 2, 4, 5, 7]

/-- The number of bytes for so many characters in front of the padding. -/
def dec : List Nat := [0, 0, 1, 0, 2, 3, 0, 4]

/-- `chunk`, of a group of at most five bytes from the place `i` on. -/
def packFrom (i : Nat) : List Character → BitVec 64
  | [] => 0
  | c :: group => c.setWidth 64 <<< ((4 - i) * 8) ||| packFrom (i + 1) group

def symbol (chunk : BitVec 64) (i : Nat) : Character :=
  lookup.getD ((chunk >>> ((7 - i) * 5)).setWidth 8 &&& 0x1f).toNat 0

def symbols (chunk : BitVec 64) (limit : Nat) : List Character :=
  (List.range limit).map (symbol chunk)

/-- `b32h_encode`, of the characters of a string. -/
def encodeChars : List Character → List Character
  | [] => []
  | a :: b :: c :: d :: e :: rest => symbols (packFrom 0 [a, b, c, d, e]) 8 ++ encodeChars rest
  | group =>
    let limit := enc.getD group.length 0
    symbols (packFrom 0 group) limit ++ List.replicate (8 - limit) padding

/-- The value of a character, whatever it is. -/
def idx (c : Character) : Character := if c.sle 0x39 then c - 0x30 else 10 + c - 0x41

/-- The inner loop of `b32h_decode` over `n` more characters: where it stops, and `chunk`. -/
def scan (memory : List Character) : Nat → Nat → BitVec 64 → Option (Nat × BitVec 64)
  | 0, i, chunk => some (i, chunk)
  | n + 1, i, chunk =>
    match memory[i]? with
    | none => none
    | some c =>
      if c = padding then some (i, chunk)
      else scan memory n (i + 1) (chunk ||| (idx c).signExtend 64 <<< ((7 - i) * 5))

def outputs (chunk : BitVec 64) (limit : Nat) : List Character :=
  (List.range limit).map fun j => (chunk >>> ((4 - j) * 8)).setWidth 8

/-- The bytes of the group that starts at the pointer. -/
def decodeGroup (memory : List Character) : Option (List Character) :=
  match scan memory 8 0 0 with
  | none => none
  | some (i, chunk) =>
    match memory[i]? with
    | none => none
    | some c => (if c = padding then dec[i]? else some 5).map (outputs chunk)

/-- The outer loop, over the memory from the pointer on. -/
def decodeMemory (memory : List Character) : Option (List Character) :=
  match memory with
  | [] => none
  | c :: rest =>
    if c = 0 then some []
    else
      match decodeGroup (c :: rest) with
      | none => none
      | some bytes => (decodeMemory (rest.drop 7)).map (bytes ++ ·)
termination_by memory.length

def b32hDecode (encoded : CString) : Option (List Character) := decodeMemory (encoded.chars ++ [0])

end OpenDDS.Source.FileSystemStorage
