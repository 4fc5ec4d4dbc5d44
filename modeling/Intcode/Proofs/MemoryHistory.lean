import Mathlib.Data.List.Induction
import Intcode.Proofs.Memory
import Intcode.Proofs.ProgramText

/-! The history of a memory. A history is a row of requests to read, to write and to add cells, those that fail
among them. What it leaves is a map from places to words: its extent is the greatest size that has been asked for,
and a place holds what the last write that found it there has put into it. A memory is that map and nothing more. -/

namespace Intcode.Memory

/-- A request to a memory. -/
inductive Request where
  | read (address : Word)
  | write (address value : Word)
  | pad (size : Nat)
deriving DecidableEq

namespace Request

/-- The address that a request is about. -/
def address? : Request → Option Word
  | read address | write address _ => some address
  | pad _ => none

/-- The number of cells that a request asks for; it is zero if the request does not ask for any. -/
def asks : Request → Nat
  | pad size => size
  | read _ | write .. => 0

/-- The request puts `v` into the cell at the place `k` of a memory of the given size. -/
def Stores (r : Request) (size k : Nat) (v : Word) : Prop := ∃ a, r = .write a v ∧ a.toInt = k ∧ k < size

end Request

/-- What a memory answers to a request: the word, if it is asked for one, or the fault. -/
def answer (m : Memory) : Request → Except Fault (Option Word)
  | .read address => (m.read address).map some
  | .write address value => (m.write address value).map fun _ => none
  | .pad _ => .ok none

/-- The memory after a request, which is the same one if the request fails. -/
def serve (m : Memory) : Request → Memory
  | .read _ => m
  | .write address value =>
    match m.write address value with
    | .ok next => next
    | .error _ => m
  | .pad size => m.padded size

/-- The memory after a history. -/
def serveAll (m : Memory) (history : List Request) : Memory := history.foldl serve m

/-! ### The map of a history -/

/-- The greatest of the size before the history and the sizes asked for in it. -/
def extent (size : Nat) (history : List Request) : Nat := (history.map Request.asks).foldl max size

/-- The request at `i` in the history puts `v` into the cell at `k`, which is there at that moment. -/
def Written (size : Nat) (history : List Request) (i k : Nat) (v : Word) : Prop :=
  ∃ r, history[i]? = some r ∧ r.Stores (extent size (history.take i)) k v

/-- What the place `k` holds after a history that starts with the cells: the word of the last write that found its
cell; without one, what was there at the start, or zero behind the cells of the start. -/
inductive Holds (cells : Array Word) (history : List Request) (k : Nat) : Word → Prop where
  | written {i : Nat} {v : Word} : Written cells.size history i k v →
      (∀ j v', i < j → ¬Written cells.size history j k v') → Holds cells history k v
  | first {w : Word} : (∀ i v, ¬Written cells.size history i k v) → cells[k]? = some w → Holds cells history k w
  | added : (∀ i v, ¬Written cells.size history i k v) → cells.size ≤ k → Holds cells history k 0

/-- After a history that starts with the cells, the place `k` is in use and holds `w`. -/
def Maps (cells : Array Word) (history : List Request) (k : Nat) (w : Word) : Prop :=
  k < extent cells.size history ∧ Holds cells history k w

variable {m m' : Memory} {cells : Array Word} {history : List Request} {r : Request} {size i k : Nat} {v w : Word}

/-! ### One request more -/

theorem extent_append (size : Nat) (history later : List Request) :
    extent size (history ++ later) = extent (extent size history) later := by
  rw [extent, List.map_append, List.foldl_append]
  rfl

theorem le_extent (size : Nat) (history : List Request) : size ≤ extent size history := by
  induction history using List.reverseRecOn with
  | nil => exact Nat.le_refl size
  | append_singleton history r ih =>
      rw [extent_append]
      exact Nat.le_trans ih (Nat.le_max_left _ _)

theorem extent_take_le (size : Nat) (history : List Request) (i : Nat) :
    extent size (history.take i) ≤ extent size history := by
  have hle := le_extent (extent size (history.take i)) (history.drop i)
  rwa [← extent_append, List.take_append_drop] at hle

theorem written_append_singleton :
    Written size (history ++ [r]) i k v ↔
      Written size history i k v ∨ i = history.length ∧ r.Stores (extent size history) k v := by
  unfold Written
  rcases Nat.lt_trichotomy i history.length with hi | rfl | hi
  · rw [List.getElem?_append_left hi, List.take_append_of_le_length (Nat.le_of_lt hi)]
    simp [Nat.ne_of_lt hi]
  · simp
  · have hnone : history[i]? = none := List.getElem?_eq_none (Nat.le_of_lt hi)
    have hnone' : (history ++ [r])[i]? = none := by
      rw [List.getElem?_eq_none_iff, List.length_append, List.length_singleton]
      omega
    simp [hnone, hnone', Nat.ne_of_gt hi]

theorem Written.lt_extent (h : Written size history i k v) : k < extent size history := by
  obtain ⟨r, -, a, -, -, hk⟩ := h
  exact Nat.lt_of_lt_of_le hk (extent_take_le size history i)

theorem Written.lt_length (h : Written size history i k v) : i < history.length := by
  obtain ⟨r, hr, -⟩ := h
  exact (List.getElem?_eq_some_iff.mp hr).1

/-- A request that writes to the place decides what it holds. -/
theorem holds_of_stores (h : r.Stores (extent cells.size history) k v) :
    Holds cells (history ++ [r]) k w ↔ w = v := by
  have hwritten : Written cells.size (history ++ [r]) history.length k v :=
    written_append_singleton.mpr (.inr ⟨rfl, h⟩)
  have hlast (j : Nat) (v' : Word) (hj : history.length < j) : ¬Written cells.size (history ++ [r]) j k v' := by
    intro h'
    have hlt := h'.lt_length
    rw [List.length_append, List.length_singleton] at hlt
    omega
  constructor
  · intro hholds
    cases hholds with
    | @written i _ hi hafter =>
        rcases written_append_singleton.mp hi with hbefore | ⟨-, a, hr, -, -⟩
        · exact absurd hwritten (hafter _ _ hbefore.lt_length)
        · obtain ⟨a', hr', -⟩ := h
          cases hr.symm.trans hr'
          rfl
    | first hno | added hno => exact absurd hwritten (hno _ _)
  · rintro rfl
    exact .written hwritten hlast

theorem Holds.of_written_iff {history' : List Request} (h : Holds cells history k w)
    (hsame : ∀ i v, Written cells.size history' i k v ↔ Written cells.size history i k v) :
    Holds cells history' k w := by
  cases h with
  | written hi hafter => exact .written ((hsame _ _).mpr hi) fun j v' hj => mt (hsame j v').mp (hafter j v' hj)
  | first hno hw => exact .first (fun i v => mt (hsame i v).mp (hno i v)) hw
  | added hno hk => exact .added (fun i v => mt (hsame i v).mp (hno i v)) hk

/-- Any other request leaves it as it is. -/
theorem holds_of_not_stores (h : ∀ v, ¬r.Stores (extent cells.size history) k v) :
    Holds cells (history ++ [r]) k w ↔ Holds cells history k w := by
  have hsame (i : Nat) (v : Word) : Written cells.size (history ++ [r]) i k v ↔ Written cells.size history i k v := by
    rw [written_append_singleton]
    exact or_iff_left fun hlast => h v hlast.2
  exact ⟨fun hholds => hholds.of_written_iff fun i v => (hsame i v).symm, fun hholds => hholds.of_written_iff hsame⟩

/-- Nothing has been written to a place that has no cell yet. -/
theorem holds_of_extent_le (hk : extent cells.size history ≤ k) : Holds cells history k w ↔ w = 0 := by
  have hno (i : Nat) (v : Word) : ¬Written cells.size history i k v := fun h => Nat.not_lt.mpr hk h.lt_extent
  have hsize : cells.size ≤ k := Nat.le_trans (le_extent _ history) hk
  constructor
  · intro hholds
    cases hholds with
    | written hi => exact absurd hi (hno _ _)
    | first _ hw =>
        rw [Array.getElem?_eq_none hsize] at hw
        cases hw
    | added => rfl
  · rintro rfl
    exact .added hno hsize

/-! ### The memory after a history -/

theorem write_eq_error_iff {a : Word} {f : Fault} :
    m.write a v = .error f ↔ (a.toInt < 0 ∨ m.size ≤ a.toInt) ∧ f = m.outOfBounds a := by
  have hbounds : ¬m.InBounds a ↔ a.toInt < 0 ∨ m.size ≤ a.toInt := by
    rw [not_inBounds_iff, cell?_eq_none_iff]
  rw [← hbounds, write]
  split
  · rename_i h
    simp [h]
  · rename_i h
    simp [h, eq_comm]

theorem map_eq_error_iff {α β : Type} {x : Except Fault α} {g : α → β} {f : Fault} :
    x.map g = .error f ↔ x = .error f := by
  cases x <;> simp [Except.map]

/-- A request fails where its address is that of no cell. -/
theorem answer_eq_error_iff {f : Fault} :
    m.answer r = .error f ↔ ∃ a, r.address? = some a ∧ (a.toInt < 0 ∨ m.size ≤ a.toInt) ∧ f = .outOfBounds a m.size := by
  cases r with
  | read a => rw [answer, map_eq_error_iff, read_eq_error_iff, cell?_eq_none_iff]; simp [Request.address?, outOfBounds]
  | write a v => rw [answer, map_eq_error_iff, write_eq_error_iff]; simp [Request.address?, outOfBounds]
  | pad size => simp [answer, Request.address?]

/-- A request that fails changes nothing. -/
theorem serve_of_error {f : Fault} (h : m.answer r = .error f) : m.serve r = m := by
  cases r with
  | read a => rfl
  | write a v =>
      rw [answer, map_eq_error_iff] at h
      rw [serve, h]
  | pad size => cases h

theorem size_serve : (m.serve r).size = max m.size r.asks := by
  cases r with
  | read a => exact (Nat.max_zero m.size).symm
  | write a v =>
      rw [serve, Request.asks, Nat.max_zero]
      cases h : m.write a v with
      | error f => rfl
      | ok next =>
          obtain ⟨-, rfl⟩ := write_eq_ok_iff.mp h
          exact size_set
  | pad size => exact size_padded

/-- A request that writes to a place puts its word there. -/
theorem cell?_serve_of_stores (h : r.Stores m.size k v) : (m.serve r).cell? k = some v := by
  obtain ⟨a, rfl, ha, hk⟩ := h
  have hbounds : m.InBounds a := inBounds_iff.mpr (by omega)
  rw [serve, write_eq_ok_iff.mpr ⟨hbounds, rfl⟩]
  dsimp only
  rw [cell?_set hbounds, if_pos ha.symm]

/-- Any other request leaves a cell as it is. -/
theorem cell?_serve_of_not_stores (hk : k < m.size) (h : ∀ v, ¬r.Stores m.size k v) :
    (m.serve r).cell? k = m.cell? k := by
  cases r with
  | read a => rfl
  | write a v =>
      rw [serve]
      cases hwrite : m.write a v with
      | error f => rfl
      | ok next =>
          obtain ⟨hbounds, rfl⟩ := write_eq_ok_iff.mp hwrite
          have hne : (k : Int) ≠ a.toInt := fun ha => h v ⟨a, rfl, ha.symm, hk⟩
          dsimp only
          rw [cell?_set hbounds, if_neg hne]
  | pad size => rw [serve, cell?_padded, if_neg (by omega)]

/-- A cell that a request adds holds zero. -/
theorem cell?_serve_of_size_le (hk : m.size ≤ k) (hr : k < r.asks) : (m.serve r).cell? k = some 0 := by
  cases r with
  | read | write => exact absurd hr (Nat.not_lt_zero k)
  | pad size => rw [serve, cell?_padded, if_pos ⟨by omega, Int.ofNat_lt.mpr hr⟩]

theorem serveAll_append_singleton : m.serveAll (history ++ [r]) = (m.serveAll history).serve r := List.foldl_concat ..

/-- What is preserved along a history: the size is the extent of the map, and each cell holds what the map has at
its place. -/
theorem serveAll_cells (cells : Array Word) (history : List Request) :
    (serveAll ⟨cells⟩ history).size = extent cells.size history ∧
      ∀ k w, k < extent cells.size history →
        ((serveAll ⟨cells⟩ history).cell? k = some w ↔ Holds cells history k w) := by
  induction history using List.reverseRecOn with
  | nil =>
      have hno (i k : Nat) (v : Word) : ¬Written cells.size [] i k v := fun h => Nat.not_lt_zero i h.lt_length
      refine ⟨rfl, fun k w hk => ⟨fun hw => .first (fun i v => hno i k v) hw, fun hholds => ?_⟩⟩
      cases hholds with
      | written hi => exact absurd hi (hno _ _ _)
      | first _ hw => exact hw
      | added _ hsize => exact absurd hk (Nat.not_lt.mpr hsize)
  | append_singleton history r ih =>
      obtain ⟨hsize, hcells⟩ := ih
      rw [serveAll_append_singleton, extent_append]
      refine ⟨?_, fun k w hk => ?_⟩
      · rw [size_serve, hsize]
        rfl
      · by_cases hstores : ∃ v, r.Stores (extent cells.size history) k v
        · obtain ⟨v, hstores⟩ := hstores
          rw [holds_of_stores hstores, cell?_serve_of_stores (by rwa [hsize]), Option.some_inj, eq_comm]
        · have hno (v : Word) : ¬r.Stores (extent cells.size history) k v := fun h => hstores ⟨v, h⟩
          rw [holds_of_not_stores hno]
          by_cases hold : k < extent cells.size history
          · rw [cell?_serve_of_not_stores (by rwa [hsize]) (by rwa [hsize]), hcells k w hold]
          · have hasks : k < max (extent cells.size history) r.asks := hk
            rw [cell?_serve_of_size_le (by omega) (by omega), holds_of_extent_le (by omega), Option.some_inj, eq_comm]

theorem cell?_serveAll_iff : (serveAll ⟨cells⟩ history).cell? k = some w ↔ Maps cells history k w := by
  obtain ⟨hsize, hcells⟩ := serveAll_cells cells history
  constructor
  · intro h
    have hk : k < extent cells.size history := by
      have := (cell?_eq_some_bound h).2
      omega
    exact ⟨hk, (hcells k w hk).mp h⟩
  · rintro ⟨hk, h⟩
    exact (hcells k w hk).mpr h

theorem eq_iff_cell? : m = m' ↔ ∀ (k : Nat) w, m.cell? k = some w ↔ m'.cell? k = some w := by
  constructor
  · rintro rfl k w
    rfl
  · intro h
    apply ext_cell?
    intro k
    cases k with
    | ofNat k => exact Option.ext (h k)
    | negSucc k => rfl

theorem read_serveAll_iff {a : Word} :
    (serveAll ⟨cells⟩ history).read a = .ok w ↔ ∃ k : Nat, a.toInt = k ∧ Maps cells history k w := by
  rw [read_eq_ok_iff]
  constructor
  · intro h
    obtain ⟨k, hk⟩ := Int.eq_ofNat_of_zero_le (cell?_eq_some_bound h).1
    rw [hk] at h
    exact ⟨k, hk, cell?_serveAll_iff.mp h⟩
  · rintro ⟨k, hk, h⟩
    rw [hk]
    exact cell?_serveAll_iff.mpr h

/-- **A memory is the map that its history makes.** Whatever is asked of it, and whatever fails, its size is the
greatest of the first size and those asked for. A read or a write fails exactly where the address is negative or
not below that size, with the fault that names both, and changes nothing. A read that succeeds gives the word of
the last write that found the cell, or what was there at the start, or zero in a cell that was added; a write that
came before its cell does not count. The words of the map in order make up the written form, and two memories are
equal when their maps are, and then have one written form, which no other memory has. -/
theorem memory_is_history (cells : Array Word) (history : List Request) :
    let m := serveAll ⟨cells⟩ history
    let size := extent cells.size history
    m.size = size ∧
    (∀ r f, m.answer r = .error f ↔
      ∃ a, r.address? = some a ∧ (a.toInt < 0 ∨ size ≤ a.toInt) ∧ f = .outOfBounds a size) ∧
    (∀ r f, m.answer r = .error f → m.serve r = m) ∧
    (∀ a w, m.read a = .ok w ↔ ∃ k : Nat, a.toInt = k ∧ k < size ∧ Holds cells history k w) ∧
    (∃ words : List Word, words.length = size ∧ (∀ k w, words[k]? = some w ↔ Maps cells history k w) ∧
      m.text = String.ofList ([','].intercalate (words.map Word.chars))) ∧
    ∀ cells' history', let m' := serveAll ⟨cells'⟩ history'
      (m = m' ↔ ∀ k w, Maps cells history k w ↔ Maps cells' history' k w) ∧ (m.text = m'.text ↔ m = m') := by
  intro m size
  have hsize : m.size = size := (serveAll_cells cells history).1
  refine ⟨hsize, fun r f => ?_, fun r f => serve_of_error, fun a w => read_serveAll_iff,
    ⟨m.cells.toList, hsize, fun k w => ?_, rfl⟩, fun cells' history' => ⟨?_, text_injective.eq_iff⟩⟩
  · rw [answer_eq_error_iff, hsize]
  · rw [Array.getElem?_toList, ← cell?_natCast]
    exact cell?_serveAll_iff
  · rw [eq_iff_cell?]
    simp only [m, cell?_serveAll_iff]

/-- The first write comes before its cell and the last beyond the greatest size, and the second size is less than
the first. -/
theorem memory_is_history_of_failures :
    let history : List Request := [.write 3 7, .pad 5, .write 0 (-2), .read (-1), .pad 2]
    let m := serveAll ⟨#[5]⟩ history
    m.size = 5 ∧ m.answer (.write 5 1) = .error (.outOfBounds 5 5) ∧ m.serve (.write 5 1) = m ∧
      m.read 3 = .ok 0 ∧ m.read 0 = .ok (-2) ∧ Holds #[5] history 3 0 ∧ Holds #[5] history 0 (-2) := by
  intro history m
  obtain ⟨hsize, herror, hserve, hread, -⟩ := memory_is_history #[5] history
  have hfails : m.answer (.write 5 1) = .error (.outOfBounds 5 5) := (herror _ _).mpr ⟨5, rfl, .inr (by decide), rfl⟩
  have hthree : m.read 3 = .ok 0 := rfl
  have hzero : m.read 0 = .ok (-2) := rfl
  obtain ⟨k, hk, -, hholds⟩ := (hread 3 0).mp hthree
  obtain ⟨k', hk', -, hholds'⟩ := (hread 0 (-2)).mp hzero
  cases Int.ofNat_inj.mp (hk : (3 : Nat) = (k : Int))
  cases Int.ofNat_inj.mp (hk' : (0 : Nat) = (k' : Int))
  exact ⟨hsize, hfails, hserve _ _ hfails, hthree, hzero, hholds, hholds'⟩

end Intcode.Memory
