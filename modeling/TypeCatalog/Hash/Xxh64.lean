/-!
The 64-bit variant of the xxHash family over a byte sequence.

The bytes are cut into eight-byte lanes. Four lanes at a time go through four accumulators;
lanes left over, then a half lane, then single bytes are mixed in one after the other.
-/
namespace TypeCatalog.Xxh64

def prime1 : UInt64 := 0x9e3779b185ebca87
def prime2 : UInt64 := 0xc2b2ae3d27d4eb4f
def prime3 : UInt64 := 0x165667b19e3779f9
def prime4 : UInt64 := 0x85ebca77c2b2ae63
def prime5 : UInt64 := 0x27d4eb2f165667c5

def rotateLeft (word count : UInt64) : UInt64 := word <<< count ||| word >>> (64 - count)

def round (acc lane : UInt64) : UInt64 := rotateLeft (acc + lane * prime2) 31 * prime1

/-- The number that bytes denote, least significant first. -/
def word (bytes : List UInt8) : UInt64 := bytes.foldr (fun b w => w <<< 8 ||| b.toUInt64) 0

/-- Cuts bytes into whole lanes and the bytes that do not fill one. -/
def lanes : List UInt8 → List UInt64 × List UInt8
  | a :: b :: c :: d :: e :: f :: g :: h :: rest =>
    let cut := lanes rest
    (word [a, b, c, d, e, f, g, h] :: cut.1, cut.2)
  | tail => ([], tail)

structure State where
  a : UInt64
  b : UInt64
  c : UInt64
  d : UInt64

def State.start (seed : UInt64) : State :=
  ⟨seed + prime1 + prime2, seed + prime2, seed, seed - prime1⟩

/-- Takes lanes in fours and returns the lanes that are left. -/
def State.absorb : State → List UInt64 → State × List UInt64
  | s, a :: b :: c :: d :: rest =>
    State.absorb ⟨round s.a a, round s.b b, round s.c c, round s.d d⟩ rest
  | s, rest => (s, rest)

def mergeRound (hash acc : UInt64) : UInt64 := (hash ^^^ round 0 acc) * prime1 + prime4

def State.converge (s : State) : UInt64 :=
  let sum := rotateLeft s.a 1 + rotateLeft s.b 7 + rotateLeft s.c 12 + rotateLeft s.d 18
  [s.a, s.b, s.c, s.d].foldl mergeRound sum

def mixLane (hash lane : UInt64) : UInt64 :=
  rotateLeft (hash ^^^ round 0 lane) 27 * prime1 + prime4

def mixHalf (hash half : UInt64) : UInt64 :=
  rotateLeft (hash ^^^ half * prime1) 23 * prime2 + prime3

def mixByte (hash : UInt64) (byte : UInt8) : UInt64 :=
  rotateLeft (hash ^^^ byte.toUInt64 * prime5) 11 * prime1

def mixTail (hash : UInt64) : List UInt8 → UInt64
  | a :: b :: c :: d :: rest => rest.foldl mixByte (mixHalf hash (word [a, b, c, d]))
  | rest => rest.foldl mixByte hash

def avalanche (hash : UInt64) : UInt64 :=
  let hash := (hash ^^^ hash >>> 33) * prime2
  let hash := (hash ^^^ hash >>> 29) * prime3
  hash ^^^ hash >>> 32

def hash (bytes : List UInt8) (seed : UInt64) : UInt64 :=
  let cut := lanes bytes
  let absorbed := (State.start seed).absorb cut.1
  let long := 4 ≤ cut.1.length
  let begun := if long then absorbed.1.converge else seed + prime5
  let mixed := absorbed.2.foldl mixLane (begun + UInt64.ofNat bytes.length)
  avalanche (mixTail mixed cut.2)

/-- The hash of a text's UTF-8 bytes under seed zero. -/
def hashText (text : String) : UInt64 := hash text.toUTF8.data.toList 0

end TypeCatalog.Xxh64
