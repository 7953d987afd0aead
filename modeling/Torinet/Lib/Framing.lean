import Mathlib.Algebra.Order.Group.Nat
import Mathlib.Data.List.Basic

/-!
# Reading frames

A stream is read a header at a time; a header is taken, and then announces the length of a body that is read next, or
it is rejected, and then the next header is read right after it. `Scan n bs ds` says that this is how the stream `bs`
is read from the offset `n` on, and that `ds` is what is taken: where the body starts, the header and the body.

A reader is in sync with a stream of frames when it takes the frames whose header it takes, where they are. Since
nothing skips the body of a rejected frame, this depends on what the bodies hold (`scan_iff`): before a frame that is
taken, the rejected ones must fall into headers that are rejected as well (`Skipped`); after the last one, what is
found in them must not be complete (`Starved`).
-/

namespace Lib

/-- A way to read frames: headers of `hdr` elements, of which `size` says how long a body they announce, unless they are
rejected. A body must fit into `room`. -/
structure Framing (α : Type*) where
  hdr : Nat
  room : Nat
  size : List α → Option Nat
  hdr_pos : 0 < hdr

namespace Framing

variable {α : Type*} {F : Framing α} {n k : Nat} {h body bs gap : List α} {ds ds' : List (Nat × List α × List α)}

/-- A header and the body it announces, if it is not rejected. -/
structure Frame (F : Framing α) where
  head : List α
  body : List α
  length_head : head.length = F.hdr
  size_head : ∀ k, F.size head = some k → k = body.length
  length_body : body.length ≤ F.room

namespace Frame

def wire (f : Frame F) : List α := f.head ++ f.body

/-- The header is not rejected. -/
def Taken (f : Frame F) : Prop := F.size f.head ≠ none

instance (f : Frame F) : Decidable f.Taken := inferInstanceAs (Decidable (_ ≠ _))

theorem Taken.size {f : Frame F} (h : f.Taken) : F.size f.head = some f.body.length := by
  obtain ⟨k, hk⟩ := Option.ne_none_iff_exists'.1 h
  rw [hk, f.size_head k hk]

end Frame

/-- What is read of a stream from the offset `n` on. -/
inductive Scan (F : Framing α) : Nat → List α → List (Nat × List α × List α) → Prop
  | short {n : Nat} {bs : List α} (hlt : bs.length < F.hdr) : Scan F n bs []
  | skip {n : Nat} {h bs : List α} {ds : List (Nat × List α × List α)} (hh : h.length = F.hdr) (hs : F.size h = none)
      (hr : Scan F (n + F.hdr) bs ds) : Scan F n (h ++ bs) ds
  | starve {n k : Nat} {h bs : List α} (hh : h.length = F.hdr) (hs : F.size h = some k) (hlt : bs.length < k) :
      Scan F n (h ++ bs) []
  | take {n : Nat} {h body bs : List α} {ds : List (Nat × List α × List α)} (hh : h.length = F.hdr)
      (hs : F.size h = some body.length) (hroom : body.length ≤ F.room)
      (hr : Scan F (n + F.hdr + body.length) bs ds) : Scan F n (h ++ (body ++ bs)) ((n + F.hdr, h, body) :: ds)

/-- The frames to take, with where their bodies start. -/
def taken (F : Framing α) : Nat → List (Frame F) → List (Nat × List α × List α)
  | _, [] => []
  | n, f :: fs =>
    let rest := taken F (n + f.wire.length) fs
    if f.Taken then (n + F.hdr, f.head, f.body) :: rest else rest

/-- A number of headers, all rejected. -/
inductive Skipped (F : Framing α) : List α → Prop
  | nil : Skipped F []
  | cons {h bs : List α} (hh : h.length = F.hdr) (hs : F.size h = none) (hr : Skipped F bs) : Skipped F (h ++ bs)

/-- Headers that are rejected, then less than a header, or a header whose body is not there. -/
inductive Starved (F : Framing α) : List α → Prop
  | short {bs : List α} (hlt : bs.length < F.hdr) : Starved F bs
  | skip {h bs : List α} (hh : h.length = F.hdr) (hs : F.size h = none) (hr : Starved F bs) : Starved F (h ++ bs)
  | body {k : Nat} {h bs : List α} (hh : h.length = F.hdr) (hs : F.size h = some k) (hlt : bs.length < k) :
      Starved F (h ++ bs)

/-- The rejected frames before each frame that is taken, with what is left of earlier ones, are skipped, and those at
the end are starved. -/
def Resyncs (F : Framing α) : List α → List (Frame F) → Prop
  | gap, [] => Starved F gap
  | gap, f :: fs => if f.Taken then Skipped F gap ∧ Resyncs F [] fs else Resyncs F (gap ++ f.wire) fs

/-! ## What is read -/

/-- Nothing is taken before a whole header. -/
theorem Scan.le (h : F.Scan n bs ds) : ∀ d ∈ ds, n + F.hdr ≤ d.1 := by
  induction h with
  | short => simp
  | skip _ _ _ ih => exact fun d hd => (Nat.add_le_add_right (Nat.le_add_right _ _) _).trans (ih d hd)
  | starve => simp
  | take _ _ _ _ ih =>
    intro d hd
    rcases List.mem_cons.1 hd with rfl | hd
    · exact le_rfl
    · have := ih d hd
      omega

/-- What can happen to a stream that has a header. -/
theorem Scan.cases_append (hs : F.Scan n (h ++ bs) ds) (hh : h.length = F.hdr) :
    (F.size h = none ∧ F.Scan (n + F.hdr) bs ds) ∨
    (∃ k, F.size h = some k ∧ bs.length < k ∧ ds = []) ∨
    ∃ body rest ds', F.size h = some body.length ∧ body.length ≤ F.room ∧ bs = body ++ rest ∧
      ds = (n + F.hdr, h, body) :: ds' ∧ F.Scan (n + F.hdr + body.length) rest ds' := by
  generalize hst : h ++ bs = stream at hs
  cases hs with
  | short hlt =>
    rw [← hst, List.length_append] at hlt
    omega
  | skip hh' hsize hr =>
    obtain ⟨rfl, rfl⟩ := List.append_inj hst (hh.trans hh'.symm)
    exact Or.inl ⟨hsize, hr⟩
  | starve hh' hsize hlt =>
    obtain ⟨rfl, rfl⟩ := List.append_inj hst (hh.trans hh'.symm)
    exact Or.inr (Or.inl ⟨_, hsize, hlt, rfl⟩)
  | take hh' hsize hroom hr =>
    obtain ⟨rfl, rfl⟩ := List.append_inj hst (hh.trans hh'.symm)
    exact Or.inr (Or.inr ⟨_, _, _, hsize, hroom, rfl, rfl, hr⟩)

/-- There is one way to read a stream. -/
theorem Scan.det (hs : F.Scan n bs ds) : ∀ {ds' : List (Nat × List α × List α)}, F.Scan n bs ds' → ds = ds' := by
  induction hs with
  | short hlt =>
    intro ds' hs'
    cases hs' with
    | short => rfl
    | skip hh | starve hh | take hh =>
      simp only [List.length_append] at hlt
      omega
  | skip hh hsize _ ih =>
    intro ds' hs'
    rcases hs'.cases_append hh with ⟨-, hr⟩ | ⟨k, hk, -⟩ | ⟨body, rest, ds₁, hk, -⟩
    · exact ih hr
    · rw [hsize] at hk
      cases hk
    · rw [hsize] at hk
      cases hk
  | starve hh hsize hlt =>
    intro ds' hs'
    rcases hs'.cases_append hh with ⟨hk, -⟩ | ⟨k, -, -, rfl⟩ | ⟨body, rest, ds₁, hk, -, rfl, -⟩
    · rw [hsize] at hk
      cases hk
    · rfl
    · obtain rfl := Option.some.inj (hsize.symm.trans hk)
      simp only [List.length_append] at hlt
      omega
  | take hh hsize hroom _ ih =>
    intro ds' hs'
    rcases hs'.cases_append hh with ⟨hk, -⟩ | ⟨k, hk, hlt, -⟩ | ⟨body, rest, ds₁, hk, -, heq, rfl, hr⟩
    · rw [hsize] at hk
      cases hk
    · obtain rfl := Option.some.inj (hsize.symm.trans hk)
      simp only [List.length_append] at hlt
      omega
    · obtain ⟨rfl, rfl⟩ := List.append_inj heq (Option.some.inj (hsize.symm.trans hk))
      rw [ih hr]

/-! ## Rejected frames -/

/-- Rejected headers are read over. -/
theorem Skipped.scan (hg : F.Skipped gap) : ∀ {n : Nat}, F.Scan (n + gap.length) bs ds → F.Scan n (gap ++ bs) ds := by
  induction hg with
  | nil => exact fun hs => by simpa using hs
  | @cons h gap hh hsize _ ih =>
    intro n hs
    rw [List.append_assoc]
    refine Scan.skip hh hsize (ih ?_)
    rwa [List.length_append, hh, ← Nat.add_assoc] at hs

/-- If the first frame taken is one that follows a gap, the gap was skipped: a header found in the gap would be taken
before it, and one found across its end would be read over the frame's own. -/
theorem Scan.skipped (hs : F.Scan n bs ds) : ∀ {gap rest : List α} {d : List α × List α}, bs = gap ++ rest →
    ds.head? = some (n + gap.length + F.hdr, d) → F.Skipped gap ∧ F.Scan (n + gap.length) rest ds := by
  induction hs with
  | short | starve =>
    intro gap rest d _ hd
    cases hd
  | @skip n h bs ds hh hsize hr ih =>
    intro gap rest d heq hd
    have hge : F.hdr ≤ gap.length := by
      have := hr.le _ (List.mem_of_mem_head? hd)
      simp only at this
      omega
    rcases List.append_eq_append_iff.1 heq with ⟨gap', rfl, rfl⟩ | ⟨x, rfl, rfl⟩
    · obtain ⟨hg, hrest⟩ := ih rfl (d := d) (by rw [hd, List.length_append, hh]; congr 2; omega)
      refine ⟨Skipped.cons hh hsize hg, ?_⟩
      rwa [List.length_append, hh, ← Nat.add_assoc]
    · obtain rfl : x = [] := List.eq_nil_of_length_eq_zero (by rw [List.length_append] at hh; omega)
      rw [List.append_nil] at hh hsize
      refine ⟨by simpa using Skipped.cons hh hsize Skipped.nil, ?_⟩
      rwa [hh]
  | @take n h body bs ds hh hsize hroom hr ih =>
    intro gap rest d heq hd
    have hlen : gap.length = 0 := by
      simp only [List.head?_cons, Option.some.injEq, Prod.mk.injEq] at hd
      omega
    obtain rfl := List.eq_nil_of_length_eq_zero hlen
    obtain rfl : h ++ (body ++ bs) = rest := heq
    exact ⟨Skipped.nil, Scan.take hh hsize hroom hr⟩

/-- Nothing is taken of a stream iff it starves. -/
theorem scan_nil_iff : F.Scan n bs [] ↔ F.Starved bs := by
  constructor
  · generalize hds : [] = ds
    intro hs
    induction hs with
    | short hlt => exact Starved.short hlt
    | skip hh hsize _ ih => exact Starved.skip hh hsize (ih hds)
    | starve hh hsize hlt => exact Starved.body hh hsize hlt
    | take => cases hds
  · intro hs
    induction hs generalizing n with
    | short hlt => exact Scan.short hlt
    | skip hh hsize _ ih => exact Scan.skip hh hsize ih
    | body hh hsize hlt => exact Scan.starve hh hsize hlt

/-- A frame that is taken is read. -/
theorem Frame.scan_iff {f : Frame F} (hf : f.Taken) : F.Scan n (f.wire ++ bs) ((n + F.hdr, f.head, f.body) :: ds) ↔
    F.Scan (n + f.wire.length) bs ds := by
  have hlen : n + f.wire.length = n + F.hdr + f.body.length := by
    rw [Frame.wire, List.length_append, f.length_head, Nat.add_assoc]
  rw [hlen, Frame.wire, List.append_assoc]
  constructor
  · intro hs
    rcases hs.cases_append f.length_head with ⟨hk, -⟩ | ⟨k, -, -, hds⟩ | ⟨body, rest, ds', hk, -, heq, hds, hr⟩
    · exact absurd hk hf
    · cases hds
    · simp only [List.cons.injEq, Prod.mk.injEq] at hds
      obtain ⟨⟨-, -, rfl⟩, rfl⟩ := hds
      rwa [List.append_cancel_left heq]
  · exact Scan.take f.length_head hf.size f.length_body

/-- **When a reader is in sync**: after a gap it takes the frames whose header it takes, where they are, iff the rejected
ones between them are skipped and those at the end starve. -/
theorem scan_iff : ∀ {fs : List (Frame F)} {gap : List α} {n : Nat},
    F.Scan n (gap ++ fs.flatMap Frame.wire) (F.taken (n + gap.length) fs) ↔ F.Resyncs gap fs
  | [], gap, n => by
    rw [List.flatMap_nil, List.append_nil]
    exact scan_nil_iff
  | f :: fs, gap, n => by
    rw [List.flatMap_cons, taken, Resyncs]
    by_cases hf : f.Taken
    · rw [if_pos hf, if_pos hf, ← scan_iff (n := n + gap.length + f.wire.length), List.nil_append, List.length_nil,
        Nat.add_zero, ← Frame.scan_iff hf]
      constructor
      · exact fun hs => hs.skipped rfl rfl
      · exact fun hs => hs.1.scan hs.2
    · rw [if_neg hf, if_neg hf, ← scan_iff (n := n), List.length_append, List.append_assoc, Nat.add_assoc]

end Framing

end Lib
