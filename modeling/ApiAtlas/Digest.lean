import ApiAtlas.Text.Utf8

/-!
The BLAKE3 hash of a byte string. Chunks of 1024 bytes are the leaves of a binary tree whose left
branches are full; compression turns a leaf's blocks, or two branches, into a chaining value.
-/
namespace ApiAtlas.Digest

abbrev Chain := Vector UInt32 8
abbrev Block := Vector UInt32 16

def initial : Chain :=
  #v[0x6A09E667, 0xBB67AE85, 0x3C6EF372, 0xA54FF53A, 0x510E527F, 0x9B05688C, 0x1F83D9AB, 0x5BE0CD19]

def permutation : Vector (Fin 16) 16 := #v[2, 6, 3, 10, 7, 0, 4, 13, 1, 11, 12, 5, 9, 14, 15, 8]

def permute (block : Block) : Block := permutation.map (block[·])

def rotateRight (x : UInt32) (n : UInt32) : UInt32 := (x >>> n) ||| (x <<< (32 - n))

structure Lane where
  a : Fin 16
  b : Fin 16
  c : Fin 16
  d : Fin 16

def mix (state : Block) (lane : Lane) (x y : UInt32) : Block :=
  let a := state[lane.a] + state[lane.b] + x
  let d := rotateRight (state[lane.d] ^^^ a) 16
  let c := state[lane.c] + d
  let b := rotateRight (state[lane.b] ^^^ c) 12
  let a := a + b + y
  let d := rotateRight (d ^^^ a) 8
  let c := c + d
  let b := rotateRight (b ^^^ c) 7
  (((state.set lane.a a).set lane.b b).set lane.c c).set lane.d d

def lanes : List (Lane × Fin 16 × Fin 16) :=
  [(⟨0, 4, 8, 12⟩, 0, 1), (⟨1, 5, 9, 13⟩, 2, 3), (⟨2, 6, 10, 14⟩, 4, 5), (⟨3, 7, 11, 15⟩, 6, 7),
    (⟨0, 5, 10, 15⟩, 8, 9), (⟨1, 6, 11, 12⟩, 10, 11), (⟨2, 7, 8, 13⟩, 12, 13),
    (⟨3, 4, 9, 14⟩, 14, 15)]

def round (state block : Block) : Block :=
  lanes.foldl (fun state (lane, x, y) => mix state lane block[x] block[y]) state

def rounds : Nat → Block → Block → Block
  | 0, state, _ => state
  | n + 1, state, block => rounds n (round state block) (permute block)

def compress (chain : Chain) (block : Block) (counter : Nat) (length flags : UInt32) : Chain :=
  let state : Block :=
    #v[chain[0], chain[1], chain[2], chain[3], chain[4], chain[5], chain[6], chain[7],
      initial[0], initial[1], initial[2], initial[3],
      .ofNat counter, .ofNat (counter / 4294967296), length, flags]
  let state := rounds 7 state block
  Vector.ofFn fun i : Fin 8 => state[i.val] ^^^ state[i.val + 8]

def chunkStart : UInt32 := 1
def chunkEnd : UInt32 := 2
def parent : UInt32 := 4
def root : UInt32 := 8

def chunkBytes : Nat := 1024
def blockBytes : Nat := 64

def word (bytes : Bytes) (i : Nat) : UInt32 :=
  (List.range 4).foldr (fun k w => w <<< 8 ||| (bytes.getD (4 * i + k) 0).toUInt32) 0

def blockOf (bytes : Bytes) : Block := Vector.ofFn fun i => word bytes i.val

/-- The blocks of a chunk from one on; `last` goes with the flags of the last. -/
def leafFrom (last : UInt32) (counter : Nat) : Nat → UInt32 → Chain → Bytes → Chain
  | 0, _, chain, _ => chain
  | limit + 1, flags, chain, bytes =>
    let here := bytes.take blockBytes
    let rest := bytes.drop blockBytes
    let length := UInt32.ofNat here.length
    if rest.isEmpty then
      compress chain (blockOf here) counter length (flags ||| chunkEnd ||| last)
    else
      leafFrom last counter limit 0 (compress chain (blockOf here) counter length flags) rest

def leaf (last : UInt32) (counter : Nat) (bytes : Bytes) : Chain :=
  leafFrom last counter (bytes.length + 1) chunkStart initial bytes

def join (last : UInt32) (left right : Chain) : Chain :=
  compress initial (left ++ right) 0 (.ofNat blockBytes) (parent ||| last)

/-- The bytes of the left branch: the largest power of two of chunks that leaves some bytes over. -/
def leftBytes (length : Nat) : Nat := Nat.pow 2 (Nat.log2 ((length - 1) / chunkBytes)) * chunkBytes

/-- The chaining value of a subtree at most `height` levels high whose first chunk has number
`counter`. -/
def subtree : (height : Nat) → (last : UInt32) → (counter : Nat) → Bytes → Chain
  | 0, last, counter, bytes => leaf last counter bytes
  | height + 1, last, counter, bytes =>
    if bytes.length ≤ chunkBytes then leaf last counter bytes
    else
      let n := leftBytes bytes.length
      join last (subtree height 0 counter (bytes.take n))
        (subtree height 0 (counter + n / chunkBytes) (bytes.drop n))

def wordBytes (w : UInt32) : Bytes :=
  (List.range 4).map fun k => (w >>> (8 * UInt32.ofNat k)).toUInt8

def hash (bytes : Bytes) : Bytes :=
  (subtree bytes.length root 0 bytes).toList.flatMap wordBytes

def hexDigits (b : UInt8) : List Char :=
  let digit := fun n => (Nat.toDigits 16 n).headD '0'
  [digit (b.toNat / 16), digit (b.toNat % 16)]

theorem digit_mem {n : Nat} (h : n < 16) :
    (Nat.toDigits 16 n).headD '0' ∈ "0123456789abcdef".toList := by
  rw [Nat.toDigits_of_lt_base h]
  revert n
  decide

theorem mem_hexDigits {b : UInt8} {c : Char} (h : c ∈ hexDigits b) :
    c ∈ "0123456789abcdef".toList := by
  have hb : b.toNat < 256 := b.toNat_lt
  unfold hexDigits at h
  simp only [List.mem_cons, List.not_mem_nil, or_false] at h
  rcases h with rfl | rfl
  · exact digit_mem (by omega)
  · exact digit_mem (by omega)

def hex (bytes : Bytes) : List Char := (hash bytes).flatMap hexDigits

theorem length_hex (bytes : Bytes) : (hex bytes).length = 64 := by
  unfold hex hash
  simp [List.length_flatMap, List.map_const', hexDigits, wordBytes]

end ApiAtlas.Digest
