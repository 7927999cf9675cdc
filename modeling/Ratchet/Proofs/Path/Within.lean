import Ratchet.Proofs.Path
import Ratchet.Workspace

/-!
Which paths lie in a workspace.

`follow` goes through the components of a path one by one: an empty one and a single dot stay at the place, two dots
lead out of its last directory, and every other component leads to a name in it. A path belongs to a workspace when
`target`, the place that it leads to from there, is the workspace's own place or lies below it. What is looked at
instead is the text of the two paths, and that tells the same unless the slashes at their start differ or the workspace
is the root of all files. `decided_iff` says when the text decides as the places do.
-/

namespace Ratchet.Path

/-! ### Following components -/

/-- The place to which components lead from a place. -/
def follow : List String → List String → List String
  | p, [] => p
  | p, c :: cs =>
    if c = "" ∨ c = "." then follow p cs
    else if c = ".." then follow p.dropLast cs
    else follow (p ++ [c]) cs

/-- The place of a workspace. -/
def base (root : String) : List String := follow [] (components root)

/-- The place to which a path leads from a workspace; an absolute one leads there from the root of all files. -/
def target (root path : String) : List String :=
  follow (if isAbsolute path then [] else base root) (components path)

/-- The path by whose text the slashes at the start are told. -/
def starter (root path : String) : String := if isAbsolute path then path else root

/-- The text of the place to which a path leads from a workspace. -/
def resolved (root path : String) : String := leadingSlashes (starter root path) ++ ofComponents (target root path)

/-- Following components from a place is what pushing them on its stack of names does. -/
lemma follow_eq {p cs : List String} (hp : ∀ n ∈ p, Proper n) :
    follow p cs = (cs.foldl (pushComponent true) p.reverse).reverse := by
  induction cs generalizing p with
  | nil => exact (List.reverse_reverse p).symm
  | cons c cs ih =>
    have hrev : ∀ n ∈ p.reverse, Proper n := fun n hn => hp n (List.mem_reverse.1 hn)
    rw [follow, List.foldl_cons]
    split
    · rename_i hdot
      rw [ih hp]
      rcases hdot with rfl | rfl <;> rfl
    · rename_i hdot
      obtain ⟨h1, h2⟩ := not_or.1 hdot
      split
      · rename_i hup
        rw [hup, pushComponent_up hrev, List.tail_reverse, ih fun n hn => hp n (List.mem_of_mem_dropLast hn)]
      · rename_i hup
        have hc : Proper c := ⟨h1, h2, hup⟩
        rw [pushComponent_proper hc, ih fun n hn => (List.mem_append.1 hn).elim (hp n) fun h =>
          List.mem_singleton.1 h ▸ hc, List.reverse_append, List.reverse_singleton, List.singleton_append]

lemma base_eq (root : String) : base root = lexical root := follow_eq fun _ hn => absurd hn List.not_mem_nil

variable {root path : String}

lemma target_eq (hroot : isAbsolute root = true) : target root path = lexical (join (normal root) path) := by
  unfold target
  by_cases hpath : isAbsolute path = true
  · rw [if_pos hpath, join, if_pos hpath]
    exact base_eq path
  · rw [if_neg hpath, base_eq, lexical_join (clear_normal hroot).ne_empty (Bool.eq_false_iff.2 hpath),
      lexical_normal hroot]
    exact follow_eq fun n hn => (mem_lexical hn).1

/-! ### Texts of places -/

lemma leadingSlashes_starter (path : String) (hroot : isAbsolute root = true) :
    leadingSlashes (join (normal root) path) = leadingSlashes (starter root path) := by
  unfold starter
  by_cases hpath : isAbsolute path = true
  · rw [if_pos hpath, join, if_pos hpath]
  · rw [if_neg hpath, leadingSlashes_join hroot (Bool.eq_false_iff.2 hpath)]

/-- The path that is looked at is the text of the place to which the path leads. -/
lemma normal_join (hroot : isAbsolute root = true) : normal (join (normal root) path) = resolved root path := by
  rw [(normal_absolute (isAbsolute_join path (isAbsolute_normal hroot))).1, leadingSlashes_starter path hroot,
    ← target_eq hroot, resolved]

/-! ### What the text tells -/

/-- Relative texts after different slashes lie below each other only when the first one is nothing after a single
slash. -/
lemma isBelow_slashes_iff {l l' a b : String} (hl : l = "/" ∨ l = "//") (hl' : l' = "/" ∨ l' = "//") (hne : l' ≠ l)
    (ha : isAbsolute a = false) (hb : isAbsolute b = false) :
    isBelow (l ++ a) (l' ++ b) = true ↔ a = "" ∧ l = "/" ∧ l' = "//" := by
  -- Without the slash that they share, one of the texts is relative and the other one absolute.
  have htwo : ∀ s : String, "//" ++ s = "/" ++ ("/" ++ s) := fun s => by rw [← String.append_assoc]; rfl
  have hone : ∀ s : String, isAbsolute ("/" ++ s) = true := fun s => isAbsolute_append s isAbsolute_root
  rcases hl with rfl | rfl
  · obtain rfl := hl'.resolve_left hne
    rw [htwo, isBelow_append]
    constructor
    · intro h
      by_contra hempty
      have habs := isAbsolute_of_isBelow (fun h0 => hempty ⟨h0, rfl, rfl⟩) h
      rw [hone, ha] at habs
      exact absurd habs nofun
    · rintro ⟨rfl, -⟩
      exact isBelow_iff.2 (.inr ⟨b, rfl⟩)
  · obtain rfl := hl'.resolve_right hne
    rw [htwo, isBelow_append]
    refine iff_of_false (fun h => ?_) fun h => absurd h.2.1 (by decide)
    have habs := isAbsolute_of_isBelow (fun h0 => ?_) h
    · rw [hone, hb] at habs
      exact absurd habs nofun
    · exact absurd (h0 ▸ hone a) nofun

/-! ### What belongs to a workspace -/

/-- Whether a path is spelled as the workspace is: with the same slashes at its start, and as the root itself if the
workspace is the root of all files. What starts with two slashes may lie below a root that has one. -/
def Spelled (root path : String) : Prop :=
  (leadingSlashes (starter root path) = leadingSlashes root ∧ (base root = [] → target root path = [])) ∨
    (base root = [] ∧ leadingSlashes root = "/" ∧ leadingSlashes (starter root path) = "//")

/-- The text of a path tells that it belongs to a workspace when its place does and it is spelled so. -/
lemma isBelow_resolved_iff (hroot : isAbsolute root = true) :
    isBelow (normal root) (resolved root path) = true ↔ base root <+: target root path ∧ Spelled root path := by
  obtain ⟨hnormal, hl⟩ := normal_absolute hroot
  have hl' : leadingSlashes (starter root path) = "/" ∨ leadingSlashes (starter root path) = "//" :=
    leadingSlashes_starter path hroot ▸ (normal_absolute (isAbsolute_join path (isAbsolute_normal hroot))).2
  have hn := names_lexical root
  have hm : ∀ m ∈ target root path, Proper m ∧ '/' ∉ m.toList := target_eq hroot ▸ names_lexical _
  rw [hnormal, resolved, Spelled, base_eq]
  by_cases heq : leadingSlashes (starter root path) = leadingSlashes root
  · have hnot : ¬ (lexical root = [] ∧ leadingSlashes root = "/" ∧ leadingSlashes root = "//") := fun h =>
      absurd (h.2.1.symm.trans h.2.2) (by decide)
    rw [heq, isBelow_append, isBelow_ofComponents_iff hn hm, or_iff_left hnot, and_iff_right rfl]
  · rw [isBelow_slashes_iff hl hl' heq (not_isAbsolute_ofComponents hn) (not_isAbsolute_ofComponents hm),
      ofComponents_eq_empty_iff hn, or_iff_right fun h => heq h.1, iff_and_self]
    rintro ⟨hempty, -⟩
    exact hempty ▸ List.nil_prefix

end Ratchet.Path

namespace Ratchet.Workspace

open Ratchet.Path

variable {root path : String}

/-- Whether it is decided by places what belongs to a workspace: a path is taken for the place to which it leads if that
is the workspace's own or lies below it, and refused otherwise. -/
structure Decided (here root path : String) : Prop where
  within : base root <+: target root path → resolve here root path = .ok (resolved root path)
  outside : ¬ base root <+: target root path →
    resolve here root path = .error (.value ("Path escapes workspace: " ++ path))

lemma resolve_absolute (here path : String) (hroot : isAbsolute root = true) : resolve here root path =
    if isBelow (normal root) (resolved root path) then .ok (resolved root path)
    else .error (.value ("Path escapes workspace: " ++ path)) := by
  have habsolute : absolute here root = normal root := by rw [absolute, join, if_pos hroot]
  have hwithin : within? here root path =
      if isBelow (normal root) (resolved root path) then some (resolved root path) else none := by
    simp only [within?, habsolute, normal_join hroot]
  unfold resolve
  rw [hwithin]
  cases isBelow (normal root) (resolved root path) with
  | true => rfl
  | false => rfl

/-- It is decided by places when the text tells the same. -/
lemma decided_of_spelled (here : String) (hroot : isAbsolute root = true)
    (h : base root <+: target root path → Spelled root path) : Decided here root path where
  within hplace := by
    rw [resolve_absolute here path hroot, if_pos ((isBelow_resolved_iff hroot).2 ⟨hplace, h hplace⟩)]
  outside hplace := by
    rw [resolve_absolute here path hroot, if_neg fun htrue => hplace ((isBelow_resolved_iff hroot).1 htrue).1]

/-- **What belongs to a workspace.** It is decided by places what belongs to a workspace exactly when a path that leads
into it is spelled as it is. -/
theorem decided_iff (here path : String) (hroot : isAbsolute root = true) :
    Decided here root path ↔ (base root <+: target root path → Spelled root path) := by
  refine ⟨fun h hplace => ?_, decided_of_spelled here hroot⟩
  have hok := h.within hplace
  rw [resolve_absolute here path hroot] at hok
  split at hok
  · rename_i htrue
    exact ((isBelow_resolved_iff hroot).1 htrue).2
  · exact absurd hok nofun

/-- A path that climbs out of a directory of a workspace and out of the workspace, and comes back. -/
theorem decided_iff_climbing : isAbsolute "/srv/../work/app/" = true ∧
    Decided "/" "/srv/../work/app/" "src/..//./../app/a.ts" := by
  have habs : isAbsolute "/srv/../work/app/" = true := by decide
  exact ⟨habs, (decided_iff "/" "src/..//./../app/a.ts" habs).2 fun _ => .inl ⟨by decide, by decide +kernel⟩⟩

/-- A workspace that is the root of all files refuses what lies below it. -/
theorem not_decided_top : isAbsolute "/" = true ∧ ¬ Decided "/" "/" "src/a.ts" := by
  refine ⟨isAbsolute_root, fun h => ?_⟩
  have hok := h.within List.nil_prefix
  rw [resolve_absolute "/" "src/a.ts" isAbsolute_root, if_neg (by decide)] at hok
  exact absurd hok nofun

/-- For a relative path it is decided by places in every workspace but the root of all files. -/
theorem decided_of_relative (here : String) (hroot : isAbsolute root = true) (hbase : base root ≠ [])
    (hpath : isAbsolute path = false) : Decided here root path := by
  have hslashes : leadingSlashes (starter root path) = leadingSlashes root := by
    rw [starter, if_neg (Bool.eq_false_iff.1 hpath)]
  exact decided_of_spelled here hroot fun _ => .inl ⟨hslashes, fun h => absurd h hbase⟩

end Ratchet.Workspace
