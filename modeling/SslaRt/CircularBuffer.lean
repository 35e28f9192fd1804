import Mathlib.Data.List.Rotate
import Mathlib.Data.Nat.ModEq

/-! Lists that are read and written circularly: a window of a buffer starts at
any position and goes on at the front. -/

namespace CircularBuffer

variable {α : Type*}

def slice (a : List α) (i j : Nat) : List α := (a.drop i).take (j - i)

def overwrite (a b : List α) (i : Nat) : List α := a.take i ++ b ++ a.drop (i + b.length)

/-- The `n` elements from position `tail` on. -/
def window (buf : List α) (tail n : Nat) : List α := (buf.rotate tail).take n

variable {a b buf buf' src : List α} {i j n m c head tail : Nat}

theorem length_overwrite (h : i + b.length ≤ a.length) : (overwrite a b i).length = a.length := by
  simp only [overwrite, List.length_append, List.length_take, List.length_drop]
  omega

theorem getElem?_overwrite (h : i + b.length ≤ a.length) : (overwrite a b i)[c]? =
    if c < i then a[c]? else if c < i + b.length then b[c - i]? else a[c]? := by
  have hlen : (a.take i).length = i := List.length_take_of_le (by omega)
  rw [overwrite, List.append_assoc, List.getElem?_append, hlen]
  by_cases hc : c < i
  · rw [if_pos hc, if_pos hc, List.getElem?_take_of_lt hc]
  · rw [if_neg hc, if_neg hc, List.getElem?_append]
    by_cases hb : c < i + b.length
    · rw [if_pos hb, if_pos (by omega)]
    · rw [if_neg hb, if_neg (by omega), List.getElem?_drop]
      congr 1
      omega

theorem overwrite_overwrite (out a b : List α) : overwrite (overwrite out a 0) b a.length =
    a ++ b ++ out.drop (a.length + b.length) := by
  have htake : (overwrite out a 0).take a.length = a := by
    rw [overwrite, List.take_zero, List.nil_append, List.take_left]
  have hdrop : (overwrite out a 0).drop (a.length + b.length) = out.drop (a.length + b.length) := by
    rw [overwrite, List.take_zero, List.nil_append, Nat.zero_add, List.drop_append,
      List.drop_eq_nil_of_le (Nat.le_add_right _ _), List.nil_append, List.drop_drop]
    congr 1
    omega
  rw [overwrite, htake, hdrop]

theorem add_mod_lt (h : head % n + j < n) : (head + j) % n = head % n + j := by
  rw [← Nat.mod_add_mod, Nat.mod_eq_of_lt h]

theorem add_mod_ge (h : n ≤ head % n + j) (hj : j ≤ n) (hn : 0 < n) :
    (head + j) % n = head % n + j - n := by
  have hlt := Nat.mod_lt head hn
  rw [← Nat.mod_add_mod, Nat.mod_eq_sub_mod h, Nat.mod_eq_of_lt (by omega)]

theorem add_mod_inj (hi : i < n) (hj : j < n) (h : (head + i) % n = (head + j) % n) : i = j := by
  have hmod : i ≡ j [MOD n] := Nat.ModEq.add_left_cancel' head h
  exact hmod.eq_of_lt_of_lt hi hj

section Window

theorem length_window (hn : n ≤ buf.length) : (window buf tail n).length = n := by
  rw [window, List.length_take_of_le (by rwa [List.length_rotate])]

theorem getElem?_window (hn : n ≤ buf.length) (hj : j < n) :
    (window buf tail n)[j]? = buf[(tail + j) % buf.length]? := by
  rw [window, List.getElem?_take_of_lt hj, List.getElem?_rotate (by omega), Nat.add_comm]

theorem window_ext {l : List α} (hn : n ≤ buf.length) (hl : l.length = n)
    (h : ∀ j < n, l[j]? = buf[(tail + j) % buf.length]?) : l = window buf tail n := by
  refine List.ext_getElem? fun j => ?_
  by_cases hj : j < n
  · rw [h j hj, getElem?_window hn hj]
  · rw [List.getElem?_eq_none (by omega), List.getElem?_eq_none (by rw [length_window hn]; omega)]

theorem window_take (hm : m ≤ n) :
    (window buf tail n).take m = window buf tail m := by
  rw [window, window, List.take_take, min_eq_left hm]

theorem window_drop (hn : n ≤ buf.length) (hm : m ≤ n) :
    (window buf tail n).drop m = window buf (tail + m) (n - m) := by
  refine window_ext (by omega) ?_ fun j hj => ?_
  · rw [List.length_drop, length_window hn]
  · rw [List.getElem?_drop, getElem?_window hn (by omega), Nat.add_assoc]

/-- A window that does not reach the end of the buffer is one slice. -/
theorem slice_eq_window (hm : tail % buf.length + m ≤ buf.length) :
    slice buf (tail % buf.length) (tail % buf.length + m) = window buf tail m := by
  rw [slice, window, List.rotate_eq_drop_append_take_mod, Nat.add_sub_cancel_left,
    List.take_append_of_le_length]
  rw [List.length_drop]
  omega

/-- A window over the end of the buffer is two slices. -/
theorem slices_eq_window (hm : buf.length ≤ tail % buf.length + m) (hm' : m ≤ buf.length) :
    buf.drop (tail % buf.length) ++ buf.take (m - (buf.length - tail % buf.length)) =
      window buf tail m := by
  rcases Nat.eq_zero_or_pos buf.length with h0 | hpos
  · rw [List.eq_nil_of_length_eq_zero h0]
    simp [window]
  have hlt := Nat.mod_lt tail hpos
  have hdrop : (buf.drop (tail % buf.length)).length ≤ m := by
    rw [List.length_drop]
    omega
  rw [window, List.rotate_eq_drop_append_take_mod, List.take_append, List.take_of_length_le hdrop,
    List.take_take, List.length_drop, min_eq_left (by omega)]

end Window

section Writes

/-- `src` has been written from position `head` on, and nothing else. -/
structure Written (buf buf' : List α) (head : Nat) (src : List α) : Prop where
  length : buf'.length = buf.length
  inside : ∀ j < src.length, buf'[(head + j) % buf.length]? = src[j]?
  outside : ∀ c < buf.length, (∀ j < src.length, (head + j) % buf.length ≠ c) → buf'[c]? = buf[c]?

theorem written_once (h : head % buf.length + src.length ≤ buf.length) :
    Written buf (overwrite buf src (head % buf.length)) head src where
  length := length_overwrite h
  inside j hj := by
    rw [add_mod_lt (by omega), getElem?_overwrite h, if_neg (by omega), if_pos (by omega),
      Nat.add_sub_cancel_left]
  outside c hc hout := by
    rw [getElem?_overwrite h]
    by_cases hlo : c < head % buf.length
    · rw [if_pos hlo]
    · rw [if_neg hlo, if_neg]
      intro hhi
      refine hout (c - head % buf.length) (by omega) ?_
      rw [add_mod_lt (by omega)]
      omega

theorem written_twice (hpos : 0 < buf.length) (h : buf.length ≤ head % buf.length + src.length)
    (hle : src.length ≤ buf.length) {first : Nat} (hfirst : first = buf.length - head % buf.length) :
    Written buf (overwrite (overwrite buf (src.take first) (head % buf.length)) (src.drop first) 0)
      head src := by
  have hlt := Nat.mod_lt head hpos
  have hone : head % buf.length + (src.take first).length ≤ buf.length := by
    rw [List.length_take]
    omega
  have hlen := length_overwrite hone
  have htwo : 0 + (src.drop first).length ≤
      (overwrite buf (src.take first) (head % buf.length)).length := by
    rw [hlen, List.length_drop]
    omega
  have hget : ∀ c, (overwrite (overwrite buf (src.take first) (head % buf.length))
      (src.drop first) 0)[c]? = if c < src.length - first then src[first + c]?
        else if c < head % buf.length then buf[c]?
        else if c < buf.length then src[c - head % buf.length]? else buf[c]? := by
    intro c
    rw [getElem?_overwrite htwo, getElem?_overwrite hone, if_neg (by omega), List.length_drop,
      List.length_take, Nat.sub_zero, List.getElem?_drop, Nat.zero_add]
    by_cases hlow : c < src.length - first
    · rw [if_pos hlow, if_pos hlow]
    · rw [if_neg hlow, if_neg hlow]
      by_cases hmid : c < head % buf.length
      · rw [if_pos hmid, if_pos hmid]
      · rw [if_neg hmid, if_neg hmid]
        by_cases hhi : c < buf.length
        · rw [if_pos (by omega), if_pos hhi, List.getElem?_take_of_lt (by omega)]
        · rw [if_neg (by omega), if_neg hhi]
  refine ⟨(length_overwrite htwo).trans hlen, fun j hj => ?_, fun c hc hout => ?_⟩
  · rw [hget]
    by_cases hj' : j < first
    · rw [add_mod_lt (by omega), if_neg (by omega), if_neg (by omega), if_pos (by omega),
        Nat.add_sub_cancel_left]
    · rw [add_mod_ge (by omega) (by omega) hpos, if_pos (by omega)]
      congr 1
      omega
  · have hlow : ¬ c < src.length - first := by
      intro hlow
      refine hout (first + c) (by omega) ?_
      rw [add_mod_ge (by omega) (by omega) hpos]
      omega
    have hmid : c < head % buf.length := by
      by_contra hge
      refine hout (c - head % buf.length) (by omega) ?_
      rw [add_mod_lt (by omega)]
      omega
    rw [hget, if_neg hlow, if_pos hmid]

/-- What is written behind a window extends it. -/
theorem Written.window (h : Written buf buf' (tail + n) src) (hn : n + src.length ≤ buf.length) :
    window buf' tail (n + src.length) = window buf tail n ++ src := by
  symm
  refine window_ext (by rw [h.length]; exact hn) ?_ fun j hj => ?_
  · rw [List.length_append, length_window (by omega)]
  · rw [h.length, List.getElem?_append, length_window (by omega)]
    by_cases hj' : j < n
    · rw [if_pos hj', getElem?_window (by omega) hj', h.outside _ (Nat.mod_lt _ (by omega))]
      intro i hi he
      rw [Nat.add_assoc] at he
      have hij := add_mod_inj (by omega) (by omega) he
      omega
    · rw [if_neg hj', ← h.inside _ (by omega), show tail + n + (j - n) = tail + j by omega]

/-- A window that no write reaches stays. -/
theorem Written.window_same (h : Written buf buf' (tail + n) src) (hn : n + src.length ≤ buf.length) :
    CircularBuffer.window buf' tail n = CircularBuffer.window buf tail n := by
  have hh := congrArg (List.take n) (h.window hn)
  rwa [window_take (Nat.le_add_right _ _),
    List.take_left' (length_window (by omega))] at hh

end Writes

end CircularBuffer
