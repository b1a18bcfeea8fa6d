import Chiptune.Gzip.Bits

/-!
# Prefix codes

A code gives each symbol a word of bits, such that none is the beginning of another. It is
given by the length of each word: words of the same length follow each other in the order of
their symbols, and shorter words come first.

## Main definitions

* `Gzip.Code` — a code, as a tree with the symbols at its leaves.
* `Gzip.Code.ofLengths?` — the code with given lengths.
* `Gzip.Code.next?` — takes a symbol.
-/

namespace Chiptune
namespace Gzip

/-- A prefix code. -/
inductive Code where
  /-- No word goes this way. -/
  | none
  /-- The word of a symbol ends here. -/
  | leaf (symbol : Nat)
  /-- Words go on with a zero or a one. -/
  | node (zero one : Code)
  deriving Repr, Inhabited

namespace Code

/-- The part of a code after a bit. -/
def after : Code → Bool → Code
  | node zero one, b => if b then one else zero
  | _, _ => none

/-- Follows bits to the end of a word. -/
def walk? : Code → List Bool → Option (Nat × List Bool)
  | leaf symbol, bits => some (symbol, bits)
  | code, b :: bits => walk? (code.after b) bits
  | _, [] => .none

/-- Takes a symbol, whose word has at least one bit. -/
def next? (code : Code) : List Bool → Option (Nat × List Bool)
  | [] => .none
  | b :: bits => (code.after b).walk? bits

/-- The code with one more word. -/
def insert (symbol : Nat) : List Bool → Code → Code
  | [], _ => leaf symbol
  | b :: word, code =>
    if b then node (code.after false) (insert symbol word (code.after true))
    else node (insert symbol word (code.after false)) (code.after true)

/-- The most bits in a word. -/
def maxLength : Nat := 15

/-- A number as a word of some length, its highest bit first. -/
def word (length n : Nat) : List Bool := ((List.range length).map n.testBit).reverse

/-- The symbols whose words have a length. -/
def symbolsOf (lengths : List Nat) (length : Nat) : List Nat :=
  (lengths.zipIdx.filter fun p => p.1 = length).map (·.2)

/-- Gives words of one length to symbols, from the number `n` on. -/
def insertAll (length n : Nat) (symbols : List Nat) (code : Code) : Code :=
  symbols.zipIdx.foldl (fun code p => insert p.1 (word length (n + p.2)) code) code

/-- Gives words to the symbols of each length, in increasing order of the lengths. `n` is the
first number that is free at a length. -/
def build (lengths : List Nat) : List Nat → (n : Nat) → Code → Code
  | [], _, code => code
  | length :: rest, n, code =>
    let symbols := symbolsOf lengths length
    build lengths rest (2 * (n + symbols.length)) (insertAll length n symbols code)

/-- How much of all words are taken, in parts of `2 ^ maxLength`. -/
def weight (lengths : List Nat) : Nat :=
  ((lengths.filter (0 < ·)).map fun l => Nat.pow 2 (maxLength - l)).foldl (· + ·) 0

/-- The code with given lengths, where zero stands for symbols without a word. Each sequence of
bits has to begin with a word, unless there is no word at all or only one, of a single bit. -/
def ofLengths? (lengths : List Nat) : Option Code :=
  let used := lengths.filter (0 < ·)
  if weight lengths = Nat.pow 2 maxLength ∨ used = [] ∨ used = [1] then
    some (build lengths ((List.range maxLength).map (· + 1)) 0 none)
  else .none

end Code
end Gzip
end Chiptune
