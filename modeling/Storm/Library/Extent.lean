import Mathlib.Data.List.Pairwise
import Mathlib.Order.Basic
import Mathlib.Order.Nat

/-! # Extents: contiguous address ranges

An *extent* is a start address and a length. `Apart` extents share no address, one of them ends
before the other begins; a list of extents is laid out without overlap when it is pairwise `Apart`.
`pairwise_append_of_split` is the rule by which a layout grows: what lies below a boundary and what
lies above it can be put together.

`Tiles lo hi es` says more: the extents follow one another from `lo` to `hi` without a gap. That is
the layout of a memory that is cut into blocks; `tiles_append` takes it apart at any block. -/

/-- A contiguous range of addresses. -/
structure Extent where
  /-- The first address. -/
  lo : ℕ
  /-- The number of addresses. -/
  len : ℕ
  deriving DecidableEq, Repr

namespace Extent

/-- The first address behind the extent. -/
def hi (e : Extent) : ℕ := e.lo + e.len

/-- One of the two extents ends before the other begins. -/
def Apart (e f : Extent) : Prop := e.hi ≤ f.lo ∨ f.hi ≤ e.lo

instance (e f : Extent) : Decidable (Apart e f) := inferInstanceAs (Decidable (_ ∨ _))

/-- The extent lies between two bounds. -/
def Within (lo hi : ℕ) (e : Extent) : Prop := lo ≤ e.lo ∧ e.hi ≤ hi

instance (lo hi : ℕ) (e : Extent) : Decidable (Within lo hi e) :=
  inferInstanceAs (Decidable (_ ∧ _))

theorem Apart.symm {e f : Extent} (h : Apart e f) : Apart f e := Or.symm h

instance : Std.Symm Apart := ⟨fun _ _ => Apart.symm⟩

/-- A wider interval contains what a narrower one does. -/
theorem Within.mono {lo hi lo' hi' : ℕ} {e : Extent} (h : Within lo hi e) (hlo : lo' ≤ lo)
    (hhi : hi ≤ hi') : Within lo' hi' e := ⟨hlo.trans h.1, h.2.trans hhi⟩

/-- Extents on the two sides of a boundary are apart. -/
theorem apart_of_within {lo mid hi : ℕ} {e f : Extent} (he : Within lo mid e)
    (hf : Within mid hi f) : Apart e f := Or.inl (he.2.trans hf.1)

/-- **Layouts on the two sides of a boundary** make up one layout. -/
theorem pairwise_append_of_split {lo mid hi : ℕ} {es fs : List Extent} (hes : es.Pairwise Apart)
    (hfs : fs.Pairwise Apart) (he : ∀ e ∈ es, Within lo mid e) (hf : ∀ f ∈ fs, Within mid hi f) :
    (es ++ fs).Pairwise Apart := by
  rw [List.pairwise_append]
  exact ⟨hes, hfs, fun e hmem f hmem' => apart_of_within (he e hmem) (hf f hmem')⟩

/-- **A row of layouts**: when layout `i` lies between the boundaries `b i` and `b (i + 1)`, the
first `n` of them make up one layout. -/
theorem pairwise_flatMap_range {b : ℕ → ℕ} {f : ℕ → List Extent} {n : ℕ}
    (hb : ∀ i < n, b i ≤ b (i + 1)) (hf : ∀ i < n, (f i).Pairwise Apart)
    (hw : ∀ i < n, ∀ e ∈ f i, Within (b i) (b (i + 1)) e) :
    b 0 ≤ b n ∧ ((List.range n).flatMap f).Pairwise Apart ∧
      ∀ e ∈ (List.range n).flatMap f, Within (b 0) (b n) e := by
  induction n with
  | zero => simp
  | succ n ih =>
      obtain ⟨hle, hpw, hin⟩ := ih (fun i hi => hb i (by omega)) (fun i hi => hf i (by omega))
        (fun i hi => hw i (by omega))
      have hlast := hb n (by omega)
      rw [List.range_succ, List.flatMap_append, List.flatMap_singleton]
      refine ⟨hle.trans hlast, ?_, fun e he => ?_⟩
      · exact pairwise_append_of_split hpw (hf n (by omega)) hin (hw n (by omega))
      · rcases List.mem_append.mp he with he | he
        · exact (hin e he).mono le_rfl hlast
        · exact (hw n (by omega) e he).mono hle le_rfl

/-! ## Tilings -/

/-- The extents follow one another from `lo` to `hi`. -/
def Tiles : ℕ → ℕ → List Extent → Prop
  | lo, hi, [] => lo = hi
  | lo, hi, e :: es => e.lo = lo ∧ Tiles e.hi hi es

@[simp] theorem tiles_nil {lo hi : ℕ} : Tiles lo hi [] ↔ lo = hi := Iff.rfl

@[simp] theorem tiles_cons {lo hi : ℕ} {e : Extent} {es : List Extent} :
    Tiles lo hi (e :: es) ↔ e.lo = lo ∧ Tiles e.hi hi es := Iff.rfl

/-- **A tiling is taken apart** at the boundary between two of its parts. -/
theorem tiles_append {lo hi : ℕ} {es fs : List Extent} :
    Tiles lo hi (es ++ fs) ↔ ∃ mid, Tiles lo mid es ∧ Tiles mid hi fs := by
  induction es generalizing lo with
  | nil => simp
  | cons e es ih =>
      simp only [List.cons_append, tiles_cons, ih]
      constructor
      · rintro ⟨hlo, mid, hes, hfs⟩
        exact ⟨mid, ⟨hlo, hes⟩, hfs⟩
      · rintro ⟨mid, ⟨hlo, hes⟩, hfs⟩
        exact ⟨hlo, mid, hes, hfs⟩

theorem Tiles.le {lo hi : ℕ} {es : List Extent} (h : Tiles lo hi es) : lo ≤ hi := by
  induction es generalizing lo with
  | nil => exact Nat.le_of_eq h
  | cons e es ih =>
      have hle := ih h.2
      rw [Extent.hi, h.1] at hle
      omega

/-- The tiles are inside of the tiled interval. -/
theorem Tiles.within {lo hi : ℕ} {es : List Extent} (h : Tiles lo hi es) {e : Extent}
    (he : e ∈ es) : Within lo hi e := by
  obtain ⟨pre, post, rfl⟩ := List.append_of_mem he
  obtain ⟨mid, hpre, hlo, hpost⟩ := tiles_append.mp h
  exact ⟨hlo ▸ hpre.le, hpost.le⟩

/-- The tiles are in the order of their addresses. -/
theorem Tiles.sorted {lo hi : ℕ} {es : List Extent} (h : Tiles lo hi es) :
    es.Pairwise fun e f => e.hi ≤ f.lo := by
  induction es generalizing lo with
  | nil => exact .nil
  | cons e es ih =>
      rw [List.pairwise_cons]
      exact ⟨fun f hf => (h.2.within hf).1, ih h.2⟩

/-- The tiles are apart. -/
theorem Tiles.pairwise {lo hi : ℕ} {es : List Extent} (h : Tiles lo hi es) :
    es.Pairwise Apart := h.sorted.imp Or.inl

/-- Nothing fits between a boundary and itself. -/
theorem Tiles.eq_nil {lo : ℕ} {es : List Extent} (h : Tiles lo lo es)
    (hpos : ∀ e ∈ es, 0 < e.len) : es = [] := by
  cases es with
  | nil => rfl
  | cons e es =>
      have hle := h.2.le
      have hlen := hpos e List.mem_cons_self
      rw [Extent.hi, h.1] at hle
      omega

end Extent
