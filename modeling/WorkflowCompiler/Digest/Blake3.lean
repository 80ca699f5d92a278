/-!
The BLAKE3 hash of a byte string. The input is cut into chunks of 1024 bytes, a chunk into blocks of
64 bytes; the blocks of a chunk are compressed one after the other, and the chunks' values are joined in a
binary tree whose left half is the largest power of two of chunks that leaves something on the right.
-/

namespace WorkflowCompiler.Blake3

abbrev Word := UInt32

/-- Eight words: the value of a chunk or of an inner node, and the input of the next compression. -/
structure Chain where
  a : Word
  b : Word
  c : Word
  d : Word
  e : Word
  f : Word
  g : Word
  h : Word
  deriving DecidableEq, Repr

def Chain.words (v : Chain) : List Word := [v.a, v.b, v.c, v.d, v.e, v.f, v.g, v.h]

def initial : Chain :=
  ⟨0x6A09E667, 0xBB67AE85, 0x3C6EF372, 0xA54FF53A, 0x510E527F, 0x9B05688C, 0x1F83D9AB, 0x5BE0CD19⟩

def rotateRight (w : Word) (n : Word) : Word := (w >>> n) ||| (w <<< (32 - n))

/-- Four words of the state, mixed together. -/
structure Quad where
  a : Word
  b : Word
  c : Word
  d : Word

def mix (q : Quad) (x y : Word) : Quad :=
  let a := q.a + q.b + x
  let d := rotateRight (q.d ^^^ a) 16
  let c := q.c + d
  let b := rotateRight (q.b ^^^ c) 12
  let a := a + b + y
  let d := rotateRight (d ^^^ a) 8
  let c := c + d
  let b := rotateRight (b ^^^ c) 7
  ⟨a, b, c, d⟩

/-- The sixteen words of the compression state, in four columns. -/
structure State where
  p : Quad
  q : Quad
  r : Quad
  s : Quad

/-- Mixes the columns, then the diagonals, each with two words of the message. -/
def round (v : State) : List Word → State
  | [m0, m1, m2, m3, m4, m5, m6, m7, m8, m9, m10, m11, m12, m13, m14, m15] =>
    let p := mix v.p m0 m1
    let q := mix v.q m2 m3
    let r := mix v.r m4 m5
    let s := mix v.s m6 m7
    let x := mix ⟨p.a, q.b, r.c, s.d⟩ m8 m9
    let y := mix ⟨q.a, r.b, s.c, p.d⟩ m10 m11
    let z := mix ⟨r.a, s.b, p.c, q.d⟩ m12 m13
    let w := mix ⟨s.a, p.b, q.c, r.d⟩ m14 m15
    ⟨⟨x.a, w.b, z.c, y.d⟩, ⟨y.a, x.b, w.c, z.d⟩, ⟨z.a, y.b, x.c, w.d⟩, ⟨w.a, z.b, y.c, x.d⟩⟩
  | _ => v

/-- The order of the message words in the next round. -/
def permute : List Word → List Word
  | [m0, m1, m2, m3, m4, m5, m6, m7, m8, m9, m10, m11, m12, m13, m14, m15] =>
    [m2, m6, m3, m10, m7, m0, m4, m13, m1, m11, m12, m5, m9, m14, m15, m8]
  | m => m

def rounds : Nat → State → List Word → State
  | 0, v, _ => v
  | n + 1, v, m => rounds n (round v m) (permute m)

def chunkStart : Word := 1
def chunkEnd : Word := 2
def parent : Word := 4
def root : Word := 8

/-- One compression: seven rounds on a block of sixteen words. -/
def compress (v : Chain) (block : List Word) (counter : UInt64) (length flags : Word) : Chain :=
  let s := rounds 7
    ⟨⟨v.a, v.e, initial.a, counter.toUInt32⟩,
      ⟨v.b, v.f, initial.b, (counter >>> 32).toUInt32⟩,
      ⟨v.c, v.g, initial.c, length⟩,
      ⟨v.d, v.h, initial.d, flags⟩⟩ block
  ⟨s.p.a ^^^ s.p.c, s.q.a ^^^ s.q.c, s.r.a ^^^ s.r.c, s.s.a ^^^ s.s.c,
    s.p.b ^^^ s.p.d, s.q.b ^^^ s.q.d, s.r.b ^^^ s.r.d, s.s.b ^^^ s.s.d⟩

/-- Four bytes make a word, the lowest byte first. -/
def wordsOf : List UInt8 → List Word
  | a :: b :: c :: d :: r =>
    (a.toUInt32 ||| (b.toUInt32 <<< 8) ||| (c.toUInt32 <<< 16) ||| (d.toUInt32 <<< 24)) :: wordsOf r
  | _ => []

/-- The sixteen words of a block, filled up with zero bytes. -/
def blockWords (bytes : List UInt8) : List Word :=
  wordsOf (bytes ++ List.replicate (64 - bytes.length) 0)

/-- Cuts a list into pieces of `n + 1` elements, the last one possibly shorter; an empty list has one empty
piece. -/
def pieces {α : Type} (n : Nat) (xs : List α) : List (List α) :=
  if xs.length ≤ n + 1 then [xs] else xs.take (n + 1) :: pieces n (xs.drop (n + 1))
termination_by xs.length
decreasing_by simp only [List.length_drop]; omega

/-- What is left to do for the value of a node: its last compression, before the root flag is known. -/
structure Output where
  chain : Chain
  block : List Word
  counter : UInt64
  length : Word
  flags : Word

def Output.value (o : Output) (extra : Word) : Chain :=
  compress o.chain o.block o.counter o.length (o.flags ||| extra)

/-- Compresses the blocks of a chunk in order. -/
def chunkOutput (counter : UInt64) (v : Chain) (flags : Word) : List (List UInt8) → Output
  | [] => ⟨v, blockWords [], counter, 0, flags ||| chunkEnd⟩
  | [b] => ⟨v, blockWords b, counter, UInt32.ofNat b.length, flags ||| chunkEnd⟩
  | b :: r => chunkOutput counter (compress v (blockWords b) counter 64 flags) 0 r

def chunk (counter : Nat) (bytes : List UInt8) : Output :=
  chunkOutput (UInt64.ofNat counter) initial chunkStart (pieces 63 bytes)

def join (left right : Output) : Output :=
  ⟨initial, (left.value 0).words ++ (right.value 0).words, 0, 64, parent⟩

/-- The tree above a list of chunks. Its left half is the largest power of two of them that is smaller than
their number. -/
def tree : List Output → Output
  | [] => chunk 0 []
  | [o] => o
  | o :: o' :: r =>
    let n := Nat.pow 2 (r.length + 1).log2
    join (tree ((o :: o' :: r).take n)) (tree ((o :: o' :: r).drop n))
termination_by os => os.length
decreasing_by
  · have h : Nat.pow 2 (r.length + 1).log2 ≤ r.length + 1 := Nat.log2_self_le (by omega)
    simp only [List.length_take, List.length_cons]
    omega
  · have h : 0 < Nat.pow 2 (r.length + 1).log2 := Nat.two_pow_pos _
    simp only [List.length_drop, List.length_cons]
    omega

/-- The 32 bytes of the hash, as eight words. -/
def hash (bytes : List UInt8) : Chain :=
  let chunks := (pieces 1023 bytes).mapIdx fun i b => chunk i b
  (tree chunks).value root

def hexByte (b : UInt8) : List Char :=
  [Nat.digitChar (b.toNat / 16), Nat.digitChar (b.toNat % 16)]

/-- The bytes of a word, the lowest first. -/
def wordBytes (w : Word) : List UInt8 :=
  [w.toUInt8, (w >>> 8).toUInt8, (w >>> 16).toUInt8, (w >>> 24).toUInt8]

/-- The hash of the UTF-8 form of a text, in 64 lower-case hexadecimal digits. -/
def hexHash (text : String) : String :=
  String.ofList ((hash text.toUTF8.toList).words.flatMap fun w => (wordBytes w).flatMap hexByte)

end WorkflowCompiler.Blake3
