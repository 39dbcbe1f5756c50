-- SUMMARY: The listing of a program, one instruction a line.
import Reckon.Text.Blank
import Reckon.Text.Quoted
import Reckon.Code.Program

/-!
# Listings

A listing opens with the number of instructions, the source text if there is
one, and what is wrong with the program if anything is. Every instruction then
has a line with its slot, the name of its operation and its operands.
-/

namespace Reckon

namespace Listing

def slotWidth : Nat := 4

def nameWidth : Nat := 18

/-- A constant at a position, or the position if there is none. -/
def pooled {α : Type} (constants : List α) (index : UInt16) (render : α → Text) : Text :=
  match constants[index.toNat]? with
  | some c => " " ++ render c
  | none => " [pool=" ++ Text.ofNat index.toNat ++ "]"

def bracketed (label : Text) (n : Int32) : Text := " [" ++ label ++ "=" ++ Text.ofInt n.toInt ++ "]"

/-- The operands of an instruction. -/
def operands (p : Program) (i : Instruction) : Text :=
  match i.opcode? with
  | some .pushInt =>
    if i.flag = 0 then " " ++ Text.ofInt i.imm.toInt else pooled p.ints i.index Text.ofInt
  | some .pushFloat => pooled p.strings i.index id
  | some .pushString | some .loadVar | some .getProp => pooled p.strings i.index Text.quoted
  | some .pushBool => " " ++ Value.boolText (i.flag ≠ 0)
  | some .jump | some .jumpIfFalse | some .jumpIfTrue => bracketed "offset" i.imm
  | some .callMethod | some .callBuiltin | some .callFunction =>
    pooled p.strings i.index Text.quoted ++ bracketed "args" i.imm
  | some .buildArray | some .buildObject => bracketed "count" i.imm
  | _ => Text.empty

/-- The line of the instruction in slot `pc`, without trailing white space. -/
def line (p : Program) (pc : Nat) : Text :=
  let i := p.words.decode pc
  let slot := (Text.ofNat pc).padStart slotWidth
  let name := (Opcode.nameOfNumber i.op.toNat).padEnd nameWidth
  (slot ++ ": " ++ name ++ operands p i).trimEnd

/-- The lines above the instructions. -/
def header (p : Program) : List Text :=
  let title : Text := "; Disassembly of " ++ Text.ofInt p.count ++ " instructions"
  let source (s : Text) : Text := "; source: " ++ s
  let error (f : Failure) : Text := "; error: " ++ f.message?.getD "unknown"
  title :: (p.source.map source).toList ++ (p.failure.map error).toList

end Listing

/-- The listing of a program. -/
def Program.listing (p : Program) : Text :=
  if p.count = 0 then "; No bytecode\n"
  else
    let lines := Listing.header p ++ (List.range p.count.toNat).map (Listing.line p)
    Text.join "\n" lines ++ "\n"

end Reckon
