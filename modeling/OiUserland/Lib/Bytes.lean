import Mathlib.Tactic.Ring

namespace OiUserland.Lib.Bytes

/-- The number of bytes of a magnitude; zero has none. -/
def numBytes (n : Nat) : Nat := if n = 0 then 0 else n.log2 / 8 + 1

/-- The low `k` bytes of a number, the most significant first. -/
def lowBytes : Nat → Nat → List UInt8
  | 0, _ => []
  | k + 1, n => UInt8.ofNat (n / 256 ^ k) :: lowBytes k n

def toBytes (n : Nat) : List UInt8 := lowBytes (numBytes n) n

def ofBytes : List UInt8 → Nat
  | [] => 0
  | b :: bs => b.toNat * 256 ^ bs.length + ofBytes bs

def writeAt (offset : Int) (bytes buf : List UInt8) : List UInt8 :=
  (buf.take offset.toNat ++ bytes.drop (-offset).toNat ++
    buf.drop (offset.toNat + (bytes.drop (-offset).toNat).length)).take buf.length

theorem length_lowBytes (k n : Nat) : (lowBytes k n).length = k := by
  induction k with
  | zero => rfl
  | succ k ih => simp [lowBytes, ih]

theorem length_toBytes (n : Nat) : (toBytes n).length = numBytes n := length_lowBytes _ n

theorem ofBytes_lowBytes (k n : Nat) : ofBytes (lowBytes k n) = n % 256 ^ k := by
  induction k with
  | zero => simp [lowBytes, ofBytes, Nat.mod_one]
  | succ k ih =>
      rw [lowBytes, ofBytes, length_lowBytes, ih, Nat.mod_pow_succ]
      have hb : (UInt8.ofNat (n / 256 ^ k)).toNat = n / 256 ^ k % 256 := rfl
      rw [hb]
      ring

theorem ofBytes_lt (bs : List UInt8) : ofBytes bs < 256 ^ bs.length := by
  induction bs with
  | nil => simp [ofBytes]
  | cons b bs ih =>
      have hb : b.toNat < 256 := b.toNat_lt
      have hmul : b.toNat * 256 ^ bs.length ≤ 255 * 256 ^ bs.length := Nat.mul_le_mul_right _ (by omega)
      rw [ofBytes, List.length_cons, Nat.pow_succ]
      omega

theorem ofBytes_append (xs ys : List UInt8) : ofBytes (xs ++ ys) = ofBytes xs * 256 ^ ys.length + ofBytes ys := by
  induction xs with
  | nil => simp [ofBytes]
  | cons x xs ih =>
      rw [List.cons_append, ofBytes, ofBytes, ih, List.length_append, Nat.pow_add]
      ring

theorem ofBytes_inj {xs ys : List UInt8} (hlen : xs.length = ys.length) (h : ofBytes xs = ofBytes ys) : xs = ys := by
  induction xs generalizing ys with
  | nil => exact (List.eq_nil_of_length_eq_zero hlen.symm).symm
  | cons x xs ih =>
      cases ys with
      | nil => cases hlen
      | cons y ys =>
          have hlen : xs.length = ys.length := Nat.succ.inj hlen
          have hdiv (b : UInt8) {bs : List UInt8} (hbs : ofBytes bs < 256 ^ ys.length) :
              (b.toNat * 256 ^ ys.length + ofBytes bs) / 256 ^ ys.length = b.toNat := by
            rw [Nat.mul_comm, Nat.mul_add_div (Nat.pow_pos (by decide)), Nat.div_eq_of_lt hbs, Nat.add_zero]
          rw [ofBytes, ofBytes, hlen] at h
          have hx := congrArg (· / 256 ^ ys.length) h
          simp only [hdiv x (hlen ▸ ofBytes_lt xs), hdiv y (ofBytes_lt ys)] at hx
          rw [UInt8.toNat_inj.mp hx, ih hlen (by rw [hx] at h; exact Nat.add_left_cancel h)]

theorem lt_pow_numBytes (n : Nat) : n < 256 ^ numBytes n := by
  by_cases h : n = 0
  · simp [h, numBytes]
  · have hlog : n < 2 ^ (8 * (n.log2 / 8 + 1)) := (Nat.log2_lt h).mp (by omega)
    rw [numBytes, if_neg h]
    calc n < 2 ^ (8 * (n.log2 / 8 + 1)) := hlog
      _ = 256 ^ (n.log2 / 8 + 1) := by rw [Nat.pow_mul]

theorem numBytes_le_iff (n k : Nat) : numBytes n ≤ k ↔ n < 256 ^ k := by
  constructor
  · intro h
    exact lt_of_lt_of_le (lt_pow_numBytes n) (Nat.pow_le_pow_right (by omega) h)
  · intro h
    by_cases h0 : n = 0
    · simp [h0, numBytes]
    · have hlog : n.log2 < 8 * k := by
        refine (Nat.log2_lt h0).mpr ?_
        rw [Nat.pow_mul]
        exact h
      rw [numBytes, if_neg h0]
      omega

theorem ofBytes_toBytes (n : Nat) : ofBytes (toBytes n) = n := by
  rw [toBytes, ofBytes_lowBytes, Nat.mod_eq_of_lt (lt_pow_numBytes n)]

theorem ofBytes_zeros (k : Nat) (bs : List UInt8) : ofBytes (List.replicate k 0 ++ bs) = ofBytes bs := by
  induction k with
  | zero => rfl
  | succ k ih => simp [List.replicate_succ, ofBytes, ih]

theorem writeAt_of_nonneg (k : Nat) (bytes buf : List UInt8) (h : k + bytes.length ≤ buf.length) :
    writeAt k bytes buf = buf.take k ++ bytes ++ buf.drop (k + bytes.length) := by
  have h0 : (-(k : Int)).toNat = 0 := by omega
  rw [writeAt, h0, Int.toNat_natCast, List.drop_zero, List.take_of_length_le]
  simp only [List.length_append, List.length_take, List.length_drop]
  omega

theorem writeAt_append (xs ys bytes : List UInt8) (k : Nat) (h : k + bytes.length ≤ ys.length) :
    writeAt (xs.length + k : Nat) bytes (xs ++ ys) = xs ++ (ys.take k ++ bytes ++ ys.drop (k + bytes.length)) := by
  rw [writeAt_of_nonneg _ _ _ (by simp only [List.length_append]; omega), Nat.add_assoc,
    List.take_length_add_append, List.drop_length_add_append]
  simp

end OiUserland.Lib.Bytes

namespace OiUserland.Lib.Layouts

open Lib.Bytes

/-- How the values of a type lie in memory, each as `size` bytes. -/
structure Layout (α : Type) where
  size : Nat
  bytes : α → List UInt8
  value : List UInt8 → α
  size_pos : 0 < size
  length_bytes : ∀ a, (bytes a).length = size
  value_bytes : ∀ a, value (bytes a) = a

inductive ByteOrder
  | little
  | big
  deriving DecidableEq

def ByteOrder.arrange : ByteOrder → List UInt8 → List UInt8
  | .little, bs => bs.reverse
  | .big, bs => bs

theorem arrange_arrange (order : ByteOrder) (bs : List UInt8) :
    order.arrange (order.arrange bs) = bs := by
  cases order <;> simp [ByteOrder.arrange]

theorem length_arrange (order : ByteOrder) (bs : List UInt8) :
    (order.arrange bs).length = bs.length := by
  cases order <;> simp [ByteOrder.arrange]

def word (order : ByteOrder) (k : Nat) : Layout (BitVec (8 * (k + 1))) where
  size := k + 1
  bytes v := order.arrange (lowBytes (k + 1) v.toNat)
  value bs := BitVec.ofNat _ (ofBytes (order.arrange bs))
  size_pos := Nat.succ_pos k
  length_bytes v := by rw [length_arrange, length_lowBytes]
  value_bytes v := by
    have hmod : v.toNat % 256 ^ (k + 1) = v.toNat := by
      apply Nat.mod_eq_of_lt
      calc v.toNat < 2 ^ (8 * (k + 1)) := v.isLt
        _ = 256 ^ (k + 1) := by rw [Nat.pow_mul]
    rw [arrange_arrange, ofBytes_lowBytes, hmod, BitVec.ofNat_toNat, BitVec.setWidth_eq]

variable {α β : Type}

def Layout.prod (L : Layout α) (M : Layout β) : Layout (α × β) where
  size := L.size + M.size
  bytes p := L.bytes p.1 ++ M.bytes p.2
  value bs := (L.value (bs.take L.size), M.value (bs.drop L.size))
  size_pos := Nat.add_pos_left L.size_pos _
  length_bytes p := by rw [List.length_append, L.length_bytes, M.length_bytes]
  value_bytes p := by
    rw [List.take_left' (L.length_bytes _), List.drop_left' (L.length_bytes _), L.value_bytes, M.value_bytes]

def Layout.map (L : Layout α) (e : α ≃ β) : Layout β where
  size := L.size
  bytes b := L.bytes (e.symm b)
  value bs := e (L.value bs)
  size_pos := L.size_pos
  length_bytes b := L.length_bytes _
  value_bytes b := by rw [L.value_bytes, e.apply_symm_apply]

section Arrays

variable (L : Layout α)

/-- An array of `n` items. -/
def Layout.values : Nat → List UInt8 → List α
  | 0, _ => []
  | n + 1, bs => L.value (bs.take L.size) :: Layout.values n (bs.drop L.size)

def Layout.image (l : List α) : List UInt8 := l.flatMap L.bytes

@[simp] theorem Layout.image_cons (a : α) (l : List α) : L.image (a :: l) = L.bytes a ++ L.image l := rfl

theorem Layout.length_image (l : List α) : (L.image l).length = L.size * l.length := by
  induction l with
  | nil => rfl
  | cons a l ih =>
      rw [L.image_cons, List.length_append, L.length_bytes, ih, List.length_cons, Nat.mul_succ, Nat.add_comm]

theorem Layout.values_image (l : List α) (rest : List UInt8) : L.values l.length (L.image l ++ rest) = l := by
  induction l with
  | nil => rfl
  | cons a l ih =>
      rw [List.length_cons, Layout.values, L.image_cons, List.append_assoc, List.take_left' (L.length_bytes a),
        List.drop_left' (L.length_bytes a), L.value_bytes, ih]

end Arrays

section Streams

def fread (size n : Nat) (memory stream : List UInt8) : Nat × List UInt8 × List UInt8 :=
  let data := stream.take (size * n)
  (data.length / size, data ++ memory.drop data.length, stream.drop (size * n))

variable (L : Layout α)

def Layout.freadOne (stream : List UInt8) : Option α × List UInt8 :=
  let (count, memory, rest) := fread L.size 1 [] stream
  (if count = 0 then none else some (L.value memory), rest)

theorem Layout.freadOne_bytes (a : α) (rest : List UInt8) : L.freadOne (L.bytes a ++ rest) = (some a, rest) := by
  have hcount : L.size / L.size ≠ 0 := by
    rw [Nat.div_self L.size_pos]
    exact Nat.one_ne_zero
  simp only [Layout.freadOne, fread, Nat.mul_one, List.take_left' (L.length_bytes a),
    List.drop_left' (L.length_bytes a), L.length_bytes, if_neg hcount, List.drop_nil, List.append_nil, L.value_bytes]

theorem Layout.freadOne_short {stream : List UInt8} (h : stream.length < L.size) :
    L.freadOne stream = (none, []) := by
  have hcount : (stream.take L.size).length / L.size = 0 := by
    apply Nat.div_eq_of_lt
    rw [List.length_take]
    omega
  simp only [Layout.freadOne, fread, Nat.mul_one, if_pos hcount, List.drop_eq_nil_of_le (Nat.le_of_lt h)]

theorem Layout.freadOne_length {stream rest : List UInt8} {a : α} (h : L.freadOne stream = (some a, rest)) :
    rest.length < stream.length := by
  by_cases hshort : stream.length < L.size
  · rw [L.freadOne_short hshort] at h
    cases h
  · have hpos := L.size_pos
    have hrest : stream.drop (L.size * 1) = rest := congrArg Prod.snd h
    rw [← hrest, List.length_drop]
    omega

end Streams

end OiUserland.Lib.Layouts
