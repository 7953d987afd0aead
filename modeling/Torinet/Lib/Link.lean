import Mathlib.Data.List.Basic

/-!
# Links that break

A link takes things in order from one end to the other, until it breaks: then nothing more gets on its way, and of what
was on its way only a beginning arrives. What has been taken off a link and what is on its way are the beginning of what
has been put on it, and all of it as long as the link is not broken (`Link.Conveys`).
-/

namespace Lib

structure Link (α : Type*) where
  /-- What is on its way. -/
  items : List α
  broken : Bool

namespace Link

variable {α : Type*} {l : Link α} {taken sent xs : List α}

def new : Link α := ⟨[], false⟩

def put (l : Link α) (xs : List α) : Link α := if l.broken then l else { l with items := l.items ++ xs }

def drop (l : Link α) (n : Nat) : Link α := { l with items := l.items.drop n }

/-- The link breaks, and only `n` of the things on their way still arrive. -/
def cut (l : Link α) (n : Nat) : Link α := ⟨l.items.take n, true⟩

structure Conveys (l : Link α) (taken sent : List α) : Prop where
  begins : taken ++ l.items <+: sent
  whole : l.broken = false → taken ++ l.items = sent

theorem conveys_new : (new : Link α).Conveys [] [] := ⟨List.prefix_rfl, fun _ => rfl⟩

theorem Conveys.taken_prefix (h : l.Conveys taken sent) : taken <+: sent := (List.prefix_append _ _).trans h.begins

theorem put_of_broken (h : l.broken = true) (xs : List α) : l.put xs = l := if_pos h

theorem put_of_not_broken (h : l.broken = false) (xs : List α) : l.put xs = { l with items := l.items ++ xs } := by
  rw [Link.put, h, if_neg Bool.false_ne_true]

@[simp] theorem broken_put (l : Link α) (xs : List α) : (l.put xs).broken = l.broken := by
  rw [Link.put]
  split <;> rfl

@[simp] theorem broken_drop (l : Link α) (n : Nat) : (l.drop n).broken = l.broken := rfl

@[simp] theorem put_nil (l : Link α) : l.put [] = l := by
  cases l with
  | mk items broken => cases broken <;> simp [Link.put]

theorem Conveys.put (h : l.Conveys taken sent) (xs : List α) : (l.put xs).Conveys taken (sent ++ xs) := by
  cases hb : l.broken with
  | true =>
    rw [put_of_broken hb]
    refine ⟨h.begins.trans (List.prefix_append _ _), fun hf => ?_⟩
    rw [hb] at hf
    cases hf
  | false =>
    rw [put_of_not_broken hb]
    have hall : taken ++ (l.items ++ xs) = sent ++ xs := by rw [← List.append_assoc, h.whole hb]
    exact ⟨hall ▸ List.prefix_rfl, fun _ => hall⟩

theorem Conveys.cut (h : l.Conveys taken sent) (n : Nat) : (l.cut n).Conveys taken sent where
  begins := ((List.prefix_append_right_inj taken).2 (List.take_prefix n l.items)).trans h.begins
  whole hf := by cases hf

theorem Conveys.drop (h : l.Conveys taken sent) (hxs : xs <+: l.items) :
    (l.drop xs.length).Conveys (taken ++ xs) sent := by
  obtain ⟨rest, hrest⟩ := hxs
  have hall : taken ++ xs ++ (l.drop xs.length).items = taken ++ l.items := by
    rw [Link.drop, ← hrest, List.drop_left, List.append_assoc]
  exact ⟨hall ▸ h.begins, fun hb => hall.trans (h.whole hb)⟩

end Link

end Lib
