/-
Objects that are opened, used and closed: the language of such lives, and a scanner
that decides whether a word can be continued to one of its words.
-/
import Mathlib.Computability.Language
import Mathlib.Tactic.Common

namespace TwistSim

namespace Lifetimes

/-- What an event does to an object. -/
inductive Kind where
  | opens | uses | closes
  deriving DecidableEq, Repr

section Scan

variable {α : Type*} (kind : α → Kind)

/-- One life: an opening, uses, and a closing. -/
def life : Language α :=
  {word | ∃ first body last, word = first :: body ++ [last] ∧ kind first = .opens ∧
    (∀ x ∈ body, kind x = .uses) ∧ kind last = .closes}

/-- Lives one after the other. -/
def lives : Language α := KStar.kstar (life kind)

/-- `some true` inside of a life, and `some false` between lives. -/
def advance : Option Bool → Kind → Option Bool
  | some false, .opens => some true
  | some true, .uses => some true
  | some true, .closes => some false
  | _, _ => none

/-- Whether an object is alive after an event, if it was before. -/
def Kind.leaves : Kind → Bool → Bool
  | .opens, _ => true
  | .uses, alive => alive
  | .closes, _ => false

def scan (word : List α) : Option Bool :=
  word.foldl (fun s x => advance s (kind x)) (some false)

/-- The last event that opened or closed. -/
def lastEvent (word : List α) : Option Kind :=
  word.foldl (fun e x => if kind x = .uses then e else some (kind x)) none

variable {kind} {word rest : List α} {x : α} {inside : Bool}

@[simp] theorem scan_snoc : scan kind (word ++ [x]) = advance (scan kind word) (kind x) := by
  rw [scan, List.foldl_append]
  rfl

@[simp] theorem lastEvent_snoc : lastEvent kind (word ++ [x]) =
    if kind x = .uses then lastEvent kind word else some (kind x) := by
  rw [lastEvent, List.foldl_append]
  rfl

theorem advance_of_isSome {k : Kind} (h : (advance (some inside) k).isSome = true) :
    advance (some inside) k = some (k.leaves inside) := by
  cases inside with
  | true => cases k <;> first | rfl | cases h
  | false => cases k <;> first | rfl | cases h

/-- What could not be continued cannot be continued later. -/
theorem foldl_none : rest.foldl (fun s x => advance s (kind x)) none = none := by
  induction rest with
  | nil => rfl
  | cons x rest ih => exact ih

theorem foldl_uses (h : ∀ x ∈ word, kind x = .uses) :
    word.foldl (fun s x => advance s (kind x)) (some true) = some true := by
  induction word with
  | nil => rfl
  | cons x word ih =>
      rw [List.foldl_cons, h x List.mem_cons_self]
      exact ih fun y hy => h y (List.mem_cons_of_mem x hy)

theorem foldl_life (h : word ∈ life kind) :
    word.foldl (fun s x => advance s (kind x)) (some false) = some false := by
  obtain ⟨first, body, last, rfl, hfirst, hbody, hlast⟩ := h
  have hopen : (first :: body).foldl (fun s x => advance s (kind x)) (some false) =
      some true := by
    rw [List.foldl_cons, hfirst]
    exact foldl_uses hbody
  rw [List.foldl_append, hopen, List.foldl_cons, hlast]
  rfl

theorem scan_lives (h : word ∈ lives kind) : scan kind word = some false := by
  obtain ⟨words, rfl, hwords⟩ := Language.mem_kstar.mp h
  unfold scan
  clear h
  induction words with
  | nil => rfl
  | cons first words ih =>
      have hrest : ∀ w ∈ words, w ∈ life kind := fun w hw =>
        hwords w (List.mem_cons_of_mem first hw)
      rw [List.flatten_cons, List.foldl_append, foldl_life (hwords first List.mem_cons_self)]
      exact ih hrest

theorem lives_append {one : List α} (h : word ∈ lives kind) (hone : one ∈ life kind) :
    word ++ one ∈ lives kind := by
  obtain ⟨words, rfl, hwords⟩ := Language.mem_kstar.mp h
  refine Language.mem_kstar.mpr ⟨words ++ [one], ?_, fun w hw => ?_⟩
  · rw [List.flatten_append, List.flatten_singleton]
  · rcases List.mem_append.mp hw with hw | hw
    · exact hwords w hw
    · rw [List.mem_singleton.mp hw]
      exact hone

/-- What a word is like after which the scanner is in some state. -/
def Stands (kind : α → Kind) (word : List α) : Bool → Prop
  | false => word ∈ lives kind
  | true => ∃ before first body, word = before ++ first :: body ∧ before ∈ lives kind ∧
      kind first = .opens ∧ ∀ x ∈ body, kind x = .uses

theorem stands_of_scan (h : scan kind word = some inside) : Stands kind word inside := by
  induction word using List.reverseRecOn generalizing inside with
  | nil =>
      cases h
      exact Language.nil_mem_kstar _
  | append_singleton word x ih =>
      rw [scan_snoc] at h
      cases hscan : scan kind word with
      | none =>
          rw [hscan] at h
          cases h
      | some before =>
          rw [hscan] at h
          have hbefore := ih hscan
          cases before with
          | false =>
              cases hkind : kind x with
              | opens =>
                  rw [hkind] at h
                  cases h
                  exact ⟨word, x, [], rfl, hbefore, hkind, nofun⟩
              | uses => rw [hkind] at h; cases h
              | closes => rw [hkind] at h; cases h
          | true =>
              obtain ⟨before, first, body, rfl, hlives, hfirst, hbody⟩ := hbefore
              cases hkind : kind x with
              | opens => rw [hkind] at h; cases h
              | uses =>
                  rw [hkind] at h
                  cases h
                  refine ⟨before, first, body ++ [x], ?_, hlives, hfirst, fun y hy => ?_⟩
                  · rw [List.append_assoc, List.cons_append]
                  · rcases List.mem_append.mp hy with hy | hy
                    · exact hbody y hy
                    · rw [List.mem_singleton.mp hy]
                      exact hkind
              | closes =>
                  rw [hkind] at h
                  cases h
                  have hone : first :: body ++ [x] ∈ life kind :=
                    ⟨first, body, x, rfl, hfirst, hbody, hkind⟩
                  have hall := lives_append hlives hone
                  rwa [← List.append_assoc] at hall

/-- The scanner accepts what can be continued to lives. -/
theorem scan_isSome_iff {last : α} (hlast : kind last = .closes) :
    (scan kind word).isSome = true ↔ ∃ rest, word ++ rest ∈ lives kind := by
  constructor
  · intro hsome
    obtain ⟨inside, hscan⟩ := Option.isSome_iff_exists.mp hsome
    have hstands := stands_of_scan hscan
    cases inside with
    | false => exact ⟨[], by rwa [List.append_nil]⟩
    | true =>
        obtain ⟨before, first, body, rfl, hlives, hfirst, hbody⟩ := hstands
        refine ⟨[last], ?_⟩
        rw [List.append_assoc]
        exact lives_append hlives ⟨first, body, last, rfl, hfirst, hbody, hlast⟩
  · rintro ⟨rest, hrest⟩
    cases hscan : scan kind word with
    | some inside => rfl
    | none =>
        have hall := scan_lives hrest
        rw [scan, List.foldl_append] at hall
        rw [scan] at hscan
        rw [hscan, foldl_none] at hall
        cases hall

/-- Inside of a life the last event opened, and between lives it closed. -/
theorem lastEvent_of_scan (h : scan kind word = some inside) (hne : word ≠ []) :
    lastEvent kind word = some (if inside then .opens else .closes) := by
  induction word using List.reverseRecOn generalizing inside with
  | nil => exact absurd rfl hne
  | append_singleton word x ih =>
      rw [scan_snoc] at h
      rw [lastEvent_snoc]
      cases hkind : kind x with
      | opens =>
          rw [hkind] at h
          cases hscan : scan kind word with
          | none => rw [hscan] at h; cases h
          | some before => cases before <;> rw [hscan] at h <;> cases h; rfl
      | closes =>
          rw [hkind] at h
          cases hscan : scan kind word with
          | none => rw [hscan] at h; cases h
          | some before => cases before <;> rw [hscan] at h <;> cases h; rfl
      | uses =>
          rw [hkind] at h
          rw [if_pos rfl]
          cases hscan : scan kind word with
          | none => rw [hscan] at h; cases h
          | some before =>
              cases before with
              | false => rw [hscan] at h; cases h
              | true =>
                  rw [hscan] at h
                  cases h
                  refine ih hscan fun hnil => ?_
                  rw [hnil] at hscan
                  cases hscan

end Scan

end Lifetimes

end TwistSim
