/-!
A source of pseudorandom numbers: the ChaCha block function with eight rounds,
keyed by a seed, with the blocks numbered from zero and the words of a block
taken in order.
-/

namespace QuasiDefinite

namespace ChaCha

def rotateLeft (word : UInt32) (turn : UInt32) : UInt32 :=
  (word <<< turn) ||| (word >>> (32 - turn))

def quarterRound (a b c d : Fin 16) (block : Vector UInt32 16) :
    Vector UInt32 16 :=
  let mix (x y z : Fin 16) (turn : UInt32) (block : Vector UInt32 16) :=
    let block := block.set x (block[x] + block[y])
    block.set z (rotateLeft (block[z] ^^^ block[x]) turn)
  mix c d b 7 <| mix a b d 8 <| mix c d b 12 <| mix a b d 16 block

def doubleRound (block : Vector UInt32 16) : Vector UInt32 16 :=
  let columns := [(0, 4, 8, 12), (1, 5, 9, 13), (2, 6, 10, 14),
    (3, 7, 11, 15)]
  let diagonals := [(0, 5, 10, 15), (1, 6, 11, 12), (2, 7, 8, 13),
    (3, 4, 9, 14)]
  (columns ++ diagonals).foldl
    (fun block (a, b, c, d) => quarterRound a b c d block) block

abbrev Key := Vector UInt32 8

/-- Spreads a seed over a key, one word for each step of a linear generator. -/
def keyOfSeed (seed : UInt64) : Key :=
  let advance (state : UInt64) : UInt64 :=
    state * 6364136223846793005 + 11634580027462260723
  let word (state : UInt64) : UInt32 :=
    let mixed := (((state >>> 18) ^^^ state) >>> 27).toUInt32
    let turn := (state >>> 59).toUInt32
    (mixed >>> turn) ||| (mixed <<< ((32 - turn) &&& 31))
  ((List.range 8).foldl
    (fun (key, state) i =>
      let state := advance state
      (key.setIfInBounds i (word state), state))
    (Vector.replicate 8 0, seed)).1

def block (key : Key) (counter : UInt64) : Vector UInt32 16 :=
  let start : Vector UInt32 16 := #v[0x61707865, 0x3320646e, 0x79622d32,
    0x6b206574, key[0], key[1], key[2], key[3], key[4], key[5], key[6], key[7],
    counter.toUInt32, (counter >>> 32).toUInt32, 0, 0]
  let mixed := (List.range 4).foldl (fun block _ => doubleRound block) start
  mixed.zipWith (· + ·) start

end ChaCha

structure RandomSource where
  key : ChaCha.Key
  words : Vector UInt32 16
  counter : UInt64
  /-- The pairs of words taken from it. -/
  taken : Nat
  deriving Repr

namespace RandomSource

def ofSeed (seed : UInt64) : RandomSource :=
  let key := ChaCha.keyOfSeed seed
  ⟨key, ChaCha.block key 0, 0, 0⟩

def next (source : RandomSource) : UInt64 × RandomSource :=
  let source :=
    if source.taken < 8 then source
    else
      let counter := source.counter + 1
      let words := ChaCha.block source.key counter
      { source with words, counter, taken := 0 }
  let low := source.words.toArray.getD (2 * source.taken) 0
  let high := source.words.toArray.getD (2 * source.taken + 1) 0
  (low.toUInt64 ||| (high.toUInt64 <<< 32),
    { source with taken := source.taken + 1 })

/-- A number from `low` up to, but not including, `high`. The upper bits of a
draw become the fraction of a number from one up to two; a result that rounds
to `high` is drawn again. So many draws in a row never do, and `low` stands in
for them. -/
def uniform (low high : Float) : StateM RandomSource Float :=
  draw 64
where
  draw : Nat → StateM RandomSource Float
    | 0 => return low
    | attempts + 1 => do
        let bits ← modifyGet RandomSource.next
        let fraction :=
          Float.ofBits ((bits >>> 12) ||| 0x3FF0000000000000) - 1.0
        let value := fraction * (high - low) + low
        if value < high then return value else draw attempts

end RandomSource

end QuasiDefinite
