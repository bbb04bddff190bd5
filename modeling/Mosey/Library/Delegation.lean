import Mathlib.Data.List.Basic

/-!
# Delegation of rights

Some principals hold rights at the root. A principal whose right may be delegated passes a part of
it on with a token, and whoever presents a chain of tokens claims the right at its end. `Holds` is
who holds what; `Reaches` follows one chain from a given start; `Presents` is a chain whose last
token, unlike the others, need not come from someone who may delegate.

Rights are compared by a preorder, so along a chain they only shrink.
-/

namespace Mosey.Library

structure DelegationSystem (Principal Right Token : Type*) where
  below : Right → Right → Prop
  below_refl : ∀ right, below right right
  below_trans : ∀ {first second third}, below first second → below second third → below first third
  delegable : Right → Prop
  root : Principal → Right → Prop
  /-- The token passes a right from its first principal to its second. -/
  grants : Token → Principal → Principal → Right → Prop

namespace DelegationSystem

variable {Principal Right Token : Type*} (system : DelegationSystem Principal Right Token)

inductive Holds : Principal → Right → Prop
  | root {principal : Principal} {right : Right} : system.root principal right → Holds principal right
  | delegated {principal delegate : Principal} {right passed : Right} {token : Token} :
      Holds principal right → system.delegable right →
        system.grants token principal delegate passed → system.below passed right →
        Holds delegate passed

/-- Following the chain from `start`, every token coming from a holder who may delegate. -/
inductive Reaches (start : Principal) (initial : Right) : List Token → Principal → Right → Prop
  | nil : Reaches start initial [] start initial
  | snoc {chain : List Token} {principal delegate : Principal} {right passed : Right}
      {token : Token} : Reaches start initial chain principal right → system.delegable right →
        system.grants token principal delegate passed → system.below passed right →
        Reaches start initial (chain ++ [token]) delegate passed

/-- The chain leads from `start` to `leaf`, and its last token comes from some holder. -/
def Presents (start : Principal) (initial : Right) (chain : List Token) (leaf : Principal)
    (claimed : Right) : Prop :=
  ∃ front last principal right, chain = front ++ [last] ∧
    system.Reaches start initial front principal right ∧
    system.grants last principal leaf claimed ∧ system.below claimed right

variable {system} {start principal leaf : Principal} {initial right claimed : Right}
variable {chain : List Token}

/-- Whoever a chain from the root reaches holds the right. -/
theorem Reaches.holds (hroot : system.root start initial)
    (hreaches : system.Reaches start initial chain principal right) :
    system.Holds principal right := by
  induction hreaches with
  | nil => exact .root hroot
  | snoc _ hdelegable hgrants hbelow ih => exact .delegated ih hdelegable hgrants hbelow

/-- A token in front of a chain starts it one principal earlier. -/
theorem Reaches.cons {token : Token} {next : Principal} {passed : Right}
    (hdelegable : system.delegable initial) (hgrants : system.grants token start next passed)
    (hbelow : system.below passed initial)
    (hreaches : system.Reaches next passed chain principal right) :
    system.Reaches start initial (token :: chain) principal right := by
  induction hreaches with
  | nil => exact Reaches.nil.snoc hdelegable hgrants hbelow
  | snoc _ hdelegable' hgrants' hbelow' ih =>
    rw [← List.cons_append]
    exact ih.snoc hdelegable' hgrants' hbelow'

theorem Reaches.eq_of_nil (hreaches : system.Reaches start initial [] principal right) :
    principal = start ∧ right = initial := by
  generalize hempty : ([] : List Token) = chain at hreaches
  cases hreaches with
  | nil => exact ⟨rfl, rfl⟩
  | snoc _ _ _ _ => simp at hempty

theorem Reaches.exists_of_cons {token : Token}
    (hreaches : system.Reaches start initial (token :: chain) principal right) :
    system.delegable initial ∧ ∃ next passed, system.grants token start next passed ∧
      system.below passed initial ∧ system.Reaches next passed chain principal right := by
  generalize hwhole : token :: chain = whole at hreaches
  induction hreaches generalizing chain with
  | nil => cases hwhole
  | @snoc front _ _ _ _ last hfront hdelegable hgrants hbelow ih =>
    cases front with
    | nil =>
      obtain ⟨rfl, rfl⟩ : token = last ∧ chain = [] := by simpa using hwhole
      obtain ⟨rfl, rfl⟩ := hfront.eq_of_nil
      exact ⟨hdelegable, _, _, hgrants, hbelow, .nil⟩
    | cons first rest =>
      obtain ⟨rfl, rfl⟩ : token = first ∧ chain = rest ++ [last] := by simpa using hwhole
      obtain ⟨hinitial, next, passed, hnext, hpassed, hrest⟩ := ih rfl
      exact ⟨hinitial, next, passed, hnext, hpassed, hrest.snoc hdelegable hgrants hbelow⟩

theorem presents_singleton {token : Token} : system.Presents start initial [token] leaf claimed ↔
    system.grants token start leaf claimed ∧ system.below claimed initial := by
  constructor
  · rintro ⟨front, last, principal, right, hchain, hreaches, hgrants, hbelow⟩
    obtain ⟨rfl, rfl⟩ : front = [] ∧ last = token := by
      have hsplit := List.append_eq_singleton_iff.mp hchain.symm
      simpa using hsplit
    obtain ⟨rfl, rfl⟩ := hreaches.eq_of_nil
    exact ⟨hgrants, hbelow⟩
  · rintro ⟨hgrants, hbelow⟩
    exact ⟨[], token, start, initial, rfl, .nil, hgrants, hbelow⟩

/-- A presented chain of several tokens passes its right through a principal that may delegate. -/
theorem presents_cons_cons {token second : Token} {rest : List Token} :
    system.Presents start initial (token :: second :: rest) leaf claimed ↔
      system.delegable initial ∧ ∃ next passed, system.grants token start next passed ∧
        system.below passed initial ∧ system.Presents next passed (second :: rest) leaf claimed := by
  constructor
  · rintro ⟨front, last, principal, right, hchain, hreaches, hgrants, hbelow⟩
    cases front with
    | nil => simp at hchain
    | cons first front =>
      obtain ⟨rfl, hrest⟩ : token = first ∧ second :: rest = front ++ [last] := by
        simpa using hchain
      obtain ⟨hdelegable, next, passed, hnext, hpassed, hfront⟩ := hreaches.exists_of_cons
      exact ⟨hdelegable, next, passed, hnext, hpassed,
        front, last, principal, right, hrest, hfront, hgrants, hbelow⟩
  · rintro ⟨hdelegable, next, passed, hnext, hpassed, hpresents⟩
    obtain ⟨front, last, principal, right, hrest, hfront, hgrants, hbelow⟩ := hpresents
    exact ⟨token :: front, last, principal, right, by rw [hrest, List.cons_append],
      hfront.cons hdelegable hnext hpassed, hgrants, hbelow⟩

/-- The right at the end of a presented chain is below the initial one, and that of each of its
tokens lies between the two. -/
theorem Presents.below (hpresents : system.Presents start initial chain leaf claimed) :
    system.below claimed initial ∧ ∀ token ∈ chain, ∃ principal delegate passed,
      system.grants token principal delegate passed ∧ system.below claimed passed ∧
        system.below passed initial := by
  induction chain generalizing start initial with
  | nil =>
    obtain ⟨front, last, _, _, hchain, _⟩ := hpresents
    simp at hchain
  | cons token rest ih =>
    cases rest with
    | nil =>
      obtain ⟨hgrants, hbelow⟩ := presents_singleton.mp hpresents
      refine ⟨hbelow, fun other hother ↦ ?_⟩
      rw [List.mem_singleton.mp hother]
      exact ⟨start, leaf, claimed, hgrants, system.below_refl claimed, hbelow⟩
    | cons second rest =>
      obtain ⟨_, next, passed, hnext, hpassed, htail⟩ := presents_cons_cons.mp hpresents
      have hrest := ih htail
      refine ⟨system.below_trans hrest.1 hpassed, fun other hother ↦ ?_⟩
      rcases List.mem_cons.mp hother with rfl | hlater
      · exact ⟨start, next, passed, hnext, hrest.1, hpassed⟩
      · obtain ⟨principal, delegate, right, hgrants, hlow, hhigh⟩ := hrest.2 other hlater
        exact ⟨principal, delegate, right, hgrants, hlow, system.below_trans hhigh hpassed⟩

end DelegationSystem

end Mosey.Library
