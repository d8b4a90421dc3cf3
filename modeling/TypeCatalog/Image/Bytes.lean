/-! Little-endian numbers as bytes, and reading them one after another. -/
namespace TypeCatalog.Image

/-- The last `count` bytes of a number, least significant first. -/
def littleEndian : (count : Nat) → (n : Nat) → List UInt8
  | 0, _ => []
  | count + 1, n => UInt8.ofNat n :: littleEndian count (n / 256)

@[simp] theorem length_littleEndian (count n : Nat) : (littleEndian count n).length = count := by
  induction count generalizing n with
  | zero => rfl
  | succ count ih => simp [littleEndian, ih]

/-- The number that bytes stand for, least significant first. -/
def ofLittleEndian (bytes : List UInt8) : Nat := bytes.foldr (fun b n => b.toNat + 256 * n) 0

theorem ofLittleEndian_littleEndian (count n : Nat) :
    ofLittleEndian (littleEndian count n) = n % Nat.pow 256 count := by
  induction count generalizing n with
  | zero => exact (Nat.mod_one n).symm
  | succ count ih =>
    have rest := ih (n / 256)
    simp only [ofLittleEndian] at rest
    have low : (UInt8.ofNat n).toNat = n % 256 := by simp
    simp only [littleEndian, ofLittleEndian, List.foldr_cons, rest, low]
    show n % 256 + 256 * (n / 256 % Nat.pow 256 count) = n % (Nat.pow 256 count * 256)
    rw [Nat.mul_comm (Nat.pow 256 count), Nat.mod_mul]

def put8 (n : UInt8) : List UInt8 := [n]
def put32 (n : UInt32) : List UInt8 := littleEndian 4 n.toNat
def put64 (n : UInt64) : List UInt8 := littleEndian 8 n.toNat
def putZeros (count : Nat) : List UInt8 := List.replicate count 0

abbrev Reader := StateT (List UInt8) Option

def take (count : Nat) : Reader (List UInt8) := fun bytes =>
  if count ≤ bytes.length then some (bytes.take count, bytes.drop count) else none

def read8 : Reader UInt8 := return UInt8.ofNat (ofLittleEndian (← take 1))
def read32 : Reader UInt32 := return UInt32.ofNat (ofLittleEndian (← take 4))
def read64 : Reader UInt64 := return UInt64.ofNat (ofLittleEndian (← take 8))

def skip (count : Nat) : Reader Unit := do let _ ← take count

/-- What a reader makes of the bytes from a position on. -/
def readAt {α : Type} (reader : Reader α) (bytes : List UInt8) (position : Nat) : Option α :=
  (reader.run (bytes.drop position)).map (·.1)

def padTo (bytes : List UInt8) (position : Nat) : List UInt8 :=
  bytes ++ putZeros (position - bytes.length)

end TypeCatalog.Image
