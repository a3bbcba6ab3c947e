import Mathlib.Data.Int.Bitwise
import Whuctf.Library.Python
import Whuctf.MiaES.Tables

/-!
# The block cipher of miaES

The functions of `std.py` from `xor_key_list` to `encrypt`, in its order.  Where `task.py` has a
function of the same name, its text is the same.

A state is a list of four rows of four integers, and the functions that assign to cells of their
argument (`shift_rows`, `mix_columns`) return the state after the assignments.  Every index goes
through `getItem` and `setItem`, so an index out of range is an `IndexError` here as in Python.

The three files of the task share most of this text.  `std.py` adds the inverse functions, and
`std_bk.py`, which is in `StdBk` and `InvCipher`, differs in the rotation and leaves out the calls of
the helper.
-/

namespace Whuctf.MiaES

open Python

/-- A list of lists of integers, such as the cipher's state. -/
abbrev Matrix := List (List ℕ)

/-! ## Key lists

The helper walks over lists nested to any depth, and the two callers hand it a matrix and a list of
matrices.  What it is meant to do is said in `Whitening`; here it does what its text does. -/

/-- An integer or a list, nested to any depth: what `xor_key_list` walks over. -/
inductive Item
  | int (n : ℤ)
  | list (items : List Item)

/-- `arr` after `xor_key_list(arr, K)`: a list is walked over in turn, and for an integer the loop
variable is bound to a new value. -/
def xorKeyList : List Item → ℤ → List Item
  | [], _ => []
  | .list items :: rest, key => .list (xorKeyList items key) :: xorKeyList rest key
  | .int i :: rest, key =>
      -- `i ^= K` rebinds the loop variable; the list keeps its element
      let _i := Int.xor i key
      .int i :: xorKeyList rest key

/-- A matrix as a nested list, with its rows as the lists inside. -/
def Item.ofMatrix (matrix : Matrix) : List Item :=
  matrix.map fun row => .list (row.map fun e : ℕ => .int e)

/-- The integers directly inside a nested list; the lists inside are left out. -/
def Item.ints : List Item → List ℕ
  | [] => []
  | .int n :: rest => n.toNat :: Item.ints rest
  | .list _ :: rest => Item.ints rest

/-- The lists directly inside a nested list, each with its integers. -/
def Item.toMatrix : List Item → Matrix
  | [] => []
  | .list items :: rest => Item.ints items :: Item.toMatrix rest
  | .int _ :: rest => Item.toMatrix rest

/-- `xor_key_list(matrix, K)` for a matrix, whose rows are nested lists without lists. -/
def xorKeyMatrix (matrix : Matrix) (key : ℤ) : Matrix :=
  Item.toMatrix (xorKeyList (Item.ofMatrix matrix) key)

/-- `xor_key_list(matrices, K)` for a list of matrices, which is nested one level deeper. -/
def xorKeyMatrices (matrices : List Matrix) (key : ℤ) : List Matrix :=
  (xorKeyList (matrices.map fun matrix => .list (Item.ofMatrix matrix)) key).map fun
    | .list items => Item.toMatrix items
    | .int _ => []

/-! ## Bytes and states -/

/-- `bytes2matrix`: the bytes in rows of four, the last of which may be shorter. -/
def bytes2matrix (text : List Byte) : Matrix :=
  (rangeStep text.length 4).map fun i => ints (slice text i (i + 4))

/-- `matrix2bytes`: the rows one behind the other; an integer that is no byte is a `ValueError`. -/
def matrix2bytes (matrix : Matrix) : Except PyError (List Byte) :=
  bytes matrix.flatten

/-- `s[i][j]`, with an `IndexError` from either index; negative ones count from the end. -/
def getCell (s : Matrix) (i j : ℤ) : Except PyError ℕ := do
  getItem (← getItem s i) j

/-- `s[i][j] = v`: the state with the cell replaced, or the `IndexError`. -/
def setCell (s : Matrix) (i j : ℤ) (v : ℕ) : Except PyError Matrix := do
  setItem s i (← setItem (← getItem s i) j v)

/-- A tuple assignment: all the sources are read before the first target is assigned. -/
def assignCells (s : Matrix) (targets sources : List (ℤ × ℤ)) : Except PyError Matrix := do
  let values ← sources.mapM fun c => getCell s c.1 c.2
  (targets.zip values).foldlM (fun s c => setCell s c.1.1 c.1.2 c.2) s

/-! ## The layers of a round

Each takes the state and returns it, whether the source assigns to the cells of its argument or builds
new lists.  A round of `encrypt` calls four of them, and one of `decrypt` their inverses. -/

/-- `add_round_key`: the exclusive or of two matrices of one size, cell by cell, with the helper called
on the result.  Different numbers of rows fail its assertion. -/
def addRoundKey (s k : Matrix) : Except PyError Matrix := do
  let N := s.length
  if N ≠ k.length then throw .assertionError
  let matrix ← (List.range N).mapM fun i : ℕ => (List.range N).mapM fun j : ℕ => do
    return (← getCell s i j) ^^^ (← getCell k i j)
  return xorKeyMatrix matrix 0xaa

/-- `sub_bytes`: every cell is replaced by the entry of the table at its value. -/
def subBytes (s : Matrix) (sbox : List ℕ) : Except PyError Matrix :=
  s.mapM fun r => r.mapM fun e : ℕ => getItem sbox e

/-- `shift_rows`: three tuple assignments, one for each column but the first. -/
def shiftRows (s : Matrix) : Except PyError Matrix := do
  let s ← assignCells s [(0, 1), (1, 1), (2, 1), (3, 1)] [(3, 1), (0, 1), (1, 1), (2, 1)]
  let s ← assignCells s [(0, 2), (1, 2), (2, 2), (3, 2)] [(2, 2), (3, 2), (0, 2), (1, 2)]
  assignCells s [(0, 3), (1, 3), (2, 3), (3, 3)] [(1, 3), (2, 3), (3, 3), (0, 3)]

/-- `inv_shift_rows`, of `std.py` only: the three assignments with the cells taken the other way round.
-/
def invShiftRows (s : Matrix) : Except PyError Matrix := do
  let s ← assignCells s [(0, 1), (1, 1), (2, 1), (3, 1)] [(1, 1), (2, 1), (3, 1), (0, 1)]
  let s ← assignCells s [(0, 2), (1, 2), (2, 2), (3, 2)] [(2, 2), (3, 2), (0, 2), (1, 2)]
  assignCells s [(0, 3), (1, 3), (2, 3), (3, 3)] [(3, 3), (0, 3), (1, 3), (2, 3)]

/-- `xtime`: a shift by one place, and a reduction by `0x1B` when a bit goes out at the top. -/
def xtime (a : ℕ) : ℕ :=
  if a &&& 0x80 ≠ 0 then ((a <<< 1) ^^^ 0x1B) &&& 0xFF else a <<< 1

/-- `mix_single_column`: four assignments in a row, the last of which uses the first cell as it was
before. -/
def mixSingleColumn (a : List ℕ) : Except PyError (List ℕ) := do
  let t := (← getItem a 0) ^^^ (← getItem a 1) ^^^ (← getItem a 2) ^^^ (← getItem a 3)
  let u ← getItem a 0
  let a ← setItem a 0 ((← getItem a 0) ^^^ (t ^^^ xtime ((← getItem a 0) ^^^ (← getItem a 1))))
  let a ← setItem a 1 ((← getItem a 1) ^^^ (t ^^^ xtime ((← getItem a 1) ^^^ (← getItem a 2))))
  let a ← setItem a 2 ((← getItem a 2) ^^^ (t ^^^ xtime ((← getItem a 2) ^^^ (← getItem a 3))))
  setItem a 3 ((← getItem a 3) ^^^ (t ^^^ xtime ((← getItem a 3) ^^^ u)))

/-- The loop body of `mix_columns`: `mix_single_column(s[i])`. -/
def mixRow (s : Matrix) (i : ℕ) : Except PyError Matrix := do
  setItem s i (← mixSingleColumn (← getItem s i))

/-- `mix_columns`: `mix_single_column` on each of the four rows of the matrix, which hold the columns
of AES. -/
def mixColumns (s : Matrix) : Except PyError Matrix :=
  (List.range 4).foldlM mixRow s

/-- The loop body of `inv_mix_columns`: two values, each mixed into two cells that lie opposite. -/
def invMixRow (s : Matrix) (i : ℕ) : Except PyError Matrix := do
  let u := xtime (xtime ((← getCell s i 0) ^^^ (← getCell s i 2)))
  let v := xtime (xtime ((← getCell s i 1) ^^^ (← getCell s i 3)))
  let s ← setCell s i 0 ((← getCell s i 0) ^^^ u)
  let s ← setCell s i 1 ((← getCell s i 1) ^^^ v)
  let s ← setCell s i 2 ((← getCell s i 2) ^^^ u)
  setCell s i 3 ((← getCell s i 3) ^^^ v)

/-- `inv_mix_columns`, of `std.py` only: a loop of its own over the rows, and then `mix_columns`. -/
def invMixColumns (s : Matrix) : Except PyError Matrix := do
  let s ← (List.range 4).foldlM invMixRow s
  mixColumns s

/-! ## The key schedule

The loop appends one word in each turn, until there are enough for eleven round keys.  Its counter goes
up only at words that get a round constant. -/

def nRounds : ℕ := 10

/-- What the loop of `expand_key` does to the previous word once every `iteration_size` columns. -/
def coreWord (word : List ℕ) (i : ℕ) : Except PyError (List ℕ) := do
  let (first, rest) ← popFront word
  let word ← (rest ++ [first]).mapM fun b : ℕ => getItem sBox b
  setItem word 0 ((← getItem word 0) ^^^ (← getItem rCon i))

/-- The body of the loop of `expand_key`: the word it appends and the next `i`. -/
def expandWord (masterKey : List Byte) (keyColumns : Matrix) (i : ℕ) :
    Except PyError (List ℕ × ℕ) := do
  let iterationSize := masterKey.length / 4
  let word ← getItem keyColumns (-1)
  let position ← mod keyColumns.length iterationSize
  let (word, i) ←
    if position = 0 then do
      let word ← coreWord word i
      pure (word, i + 1)
    else if masterKey.length = 32 ∧ position = 4 then do
      let word ← word.mapM fun b : ℕ => getItem sBox b
      pure (word, i)
    else pure (word, i)
  let previous ← getItem keyColumns (-(iterationSize : ℤ))
  return (List.zipWith (· ^^^ ·) word previous, i)

/-- The loop of `expand_key`, until there are four words for each of the eleven round keys. -/
def expandLoop (masterKey : List Byte) (keyColumns : Matrix) (i : ℕ) : Except PyError Matrix :=
  if keyColumns.length < (nRounds + 1) * 4 then do
    let (word, i) ← expandWord masterKey keyColumns i
    expandLoop masterKey (keyColumns ++ [word]) i
  else return keyColumns
termination_by (nRounds + 1) * 4 - keyColumns.length
decreasing_by simp only [List.length_append, List.length_singleton]; omega

/-- `expand_key`: the words of the loop in groups of four, on which the helper is called. -/
def expandKey (masterKey : List Byte) : Except PyError (List Matrix) := do
  let keyColumns ← expandLoop masterKey (bytes2matrix masterKey) 1
  let keyMatrix := (List.range (keyColumns.length / 4)).map fun i =>
    slice keyColumns (4 * i) (4 * (i + 1))
  return xorKeyMatrices keyMatrix 0xcf

/-! ## Encryption and decryption -/

/-- The loop body of `encrypt`, one of the nine rounds in the middle. -/
def encryptRound (roundKeys : List Matrix) (m : Matrix) (i : ℕ) : Except PyError Matrix := do
  let m ← subBytes m sBox
  let m ← shiftRows m
  let m ← mixColumns m
  addRoundKey m (← getItem roundKeys i)

/-- The rounds of `encrypt` on the state, with the round keys given. -/
def encryptRounds (roundKeys : List Matrix) (m : Matrix) : Except PyError Matrix := do
  let m ← addRoundKey m (← getItem roundKeys 0)
  let m ← (List.range' 1 (nRounds - 1)).foldlM (encryptRound roundKeys) m
  let m ← subBytes m sBox
  let m ← shiftRows m
  addRoundKey m (← getItem roundKeys (-1))

/-- `encrypt`: the expansion of the key, the rounds on the matrix of the block, and the bytes of what
they leave. -/
def encrypt (k m : List Byte) : Except PyError (List Byte) := do
  let roundKeys ← expandKey k
  let m ← encryptRounds roundKeys (bytes2matrix m)
  matrix2bytes m

/-- The loop body of `decrypt`, which takes the layers of a round back. -/
def decryptRound (roundKeys : List Matrix) (c : Matrix) (i : ℕ) : Except PyError Matrix := do
  let c ← invShiftRows c
  let c ← subBytes c invSBox
  let c ← addRoundKey c (← getItem roundKeys i)
  invMixColumns c

/-- The rounds of `decrypt` on the state, with the round keys given. -/
def decryptRounds (roundKeys : List Matrix) (c : Matrix) : Except PyError Matrix := do
  let c ← addRoundKey c (← getItem roundKeys (-1))
  -- `range(N_ROUNDS - 1, 0, -1)`
  let c ← (List.range' 1 (nRounds - 1)).reverse.foldlM (decryptRound roundKeys) c
  let c ← invShiftRows c
  let c ← subBytes c invSBox
  addRoundKey c (← getItem roundKeys 0)

/-- `decrypt`, of `std.py` only: the expansion of the key, and the rounds from the last round key to
the first. -/
def decrypt (k c : List Byte) : Except PyError (List Byte) := do
  let roundKeys ← expandKey k
  let c ← decryptRounds roundKeys (bytes2matrix c)
  matrix2bytes c

end Whuctf.MiaES
