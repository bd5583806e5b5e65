import PiTools.Library.Runs

/-
This file studies resources whose use is fenced by tokens. A token that is not
granted twice cannot come back after its resource let go of it.
-/

namespace Library.Fence

variable {Key Token : Type}

/-- Each resource accepts at most one token at a time. -/
abbrev Live (Key Token : Type) := Key → Option Token

inductive Act (Key Token : Type)
  | grant (key : Key) (token : Token)
  | accept (key : Key) (token : Token)
  | finish (key : Key) (token : Token)
  | other

/-- Without a grant a resource keeps its token or lets go of it. -/
def Shrinks (live live' : Live Key Token) : Prop :=
  ∀ key, live' key = live key ∨ live' key = none

inductive Step (live : Live Key Token) : Act Key Token → Live Key Token → Prop
  | grant {live' : Live Key Token} (key : Key) (token : Token)
      (granted : ∀ other, live' other = live other ∨ live' other = none ∨
        (other = key ∧ live' other = some token)) : Step live (.grant key token) live'
  | accept {live' : Live Key Token} (key : Key) (token : Token) (held : live key = some token)
      (shrinks : Shrinks live live') : Step live (.accept key token) live'
  | finish {live' : Live Key Token} (key : Key) (token : Token) (held : live key = some token)
      (released : live' key = none) (shrinks : Shrinks live live') :
      Step live (.finish key token) live'
  | other {live' : Live Key Token} (shrinks : Shrinks live live') : Step live .other live'

def Act.granted : Act Key Token → Option Token
  | .grant _ token => some token
  | _ => none

/-- The token that an act presents. -/
def Act.used : Act Key Token → Option Token
  | .accept _ token | .finish _ token => some token
  | _ => none

def Act.finishes [DecidableEq Token] (token : Token) : Act Key Token → Bool
  | .finish _ presented => presented = token
  | _ => false

/-- No resource accepts the token. -/
def Dead (live : Live Key Token) (token : Token) : Prop := ∀ key, live key ≠ some token

theorem Shrinks.live {live live' : Live Key Token} (shrinks : Shrinks live live') {key : Key}
    {token : Token} (after : live' key = some token) : live key = some token := by
  rcases shrinks key with same | gone
  · rw [← same, after]
  · rw [gone] at after
    cases after

/-- A token is accepted after a step only when it was accepted before or is granted now. -/
theorem Step.live {live live' : Live Key Token} {act : Act Key Token} (step : Step live act live')
    {key : Key} {token : Token} (after : live' key = some token) :
    live key = some token ∨ act = .grant key token := by
  cases step with
  | grant chosen fresh granted =>
      rcases granted key with same | gone | ⟨rfl, equal⟩
      · exact .inl (same ▸ after)
      · rw [gone] at after
        cases after
      · rw [equal] at after
        cases after
        exact .inr rfl
  | accept _ _ _ shrinks | finish _ _ _ _ shrinks | other shrinks => exact .inl (shrinks.live after)

/-- A step presents only a token that its resource accepts. -/
theorem Step.used {live live' : Live Key Token} {act : Act Key Token} (step : Step live act live')
    {token : Token} (used : act.used = some token) : ∃ key, live key = some token := by
  cases step with
  | grant | other => cases used
  | accept key _ held | finish key _ held =>
      cases used
      exact ⟨key, held⟩

variable {start live : Live Key Token} {acts : List (Act Key Token)}

/-- A dead token that is not granted stays dead and is never presented again. -/
theorem dead_forever (run : Run Step start acts live) {token : Token} (dead : Dead start token)
    (ungranted : token ∉ acts.filterMap Act.granted) :
    Dead live token ∧ ∀ act ∈ acts, act.used ≠ some token := by
  induction run with
  | refl => exact ⟨dead, by simp⟩
  | @snoc past before after act _ last ih =>
      rw [List.filterMap_append, List.mem_append, not_or] at ungranted
      obtain ⟨still, unused⟩ := ih ungranted.1
      refine ⟨fun key held => ?_, fun used member presented => ?_⟩
      · rcases last.live held with old | rfl
        · exact still key old
        · exact ungranted.2 (by simp [Act.granted])
      · rcases List.mem_append.mp member with inPast | isLast
        · exact unused used inPast presented
        · rw [List.mem_singleton] at isLast
          subst isLast
          obtain ⟨key, held⟩ := last.used presented
          exact still key held

/-- Every accepted token was granted to its resource. -/
theorem live_granted (run : Run Step (fun _ => none) acts live) {key : Key} {token : Token}
    (held : live key = some token) : Act.grant key token ∈ acts := by
  induction run with
  | refl => cases held
  | @snoc past before after act _ last ih =>
      rcases last.live held with old | rfl
      · exact List.mem_append_left _ (ih old)
      · exact List.mem_append_right _ (.head _)

theorem mem_granted {key : Key} {token : Token} (member : Act.grant key token ∈ acts) :
    token ∈ acts.filterMap Act.granted :=
  List.mem_filterMap.mpr ⟨_, member, rfl⟩

/-- A token that is granted once is granted to one resource. -/
theorem grant_unique (once : (acts.filterMap Act.granted).Nodup) {first second : Key}
    {token : Token} (toFirst : Act.grant first token ∈ acts)
    (toSecond : Act.grant second token ∈ acts) : first = second := by
  induction acts with
  | nil => cases toFirst
  | cons act rest ih =>
      cases toFirst with
      | head =>
          cases toSecond with
          | head => rfl
          | tail _ later =>
              simp only [List.filterMap_cons, Act.granted, List.nodup_cons] at once
              exact absurd (mem_granted later) once.1
      | tail _ later =>
          cases toSecond with
          | head =>
              simp only [List.filterMap_cons, Act.granted, List.nodup_cons] at once
              exact absurd (mem_granted later) once.1
          | tail _ later' =>
              refine ih (once.sublist ?_) later later'
              exact (List.sublist_cons_self act rest).filterMap _

/-- Tokens that are granted once are accepted by one resource only. -/
theorem live_unique (run : Run Step (fun _ => none) acts live)
    (once : (acts.filterMap Act.granted).Nodup) {first second : Key} {token : Token}
    (inFirst : live first = some token) (inSecond : live second = some token) :
    first = second :=
  grant_unique once (live_granted run inFirst) (live_granted run inSecond)

/-- A token that is granted once finishes at most once, and is dead from then on. -/
theorem finish_once [DecidableEq Token] (run : Run Step (fun _ => none) acts live)
    (once : (acts.filterMap Act.granted).Nodup) (token : Token) :
    acts.countP (Act.finishes token) ≤ 1 := by
  have finished : acts.countP (Act.finishes token) = 0 ∨
      (acts.countP (Act.finishes token) = 1 ∧ Dead live token ∧
        token ∈ acts.filterMap Act.granted) := by
    induction run with
    | refl => exact .inl rfl
    | @snoc past before after act earlier last ih =>
        have onceBefore := once
        rw [List.filterMap_append, List.nodup_append] at onceBefore
        rw [List.countP_append, List.countP_singleton]
        by_cases ending : act.finishes token = true
        · cases last with
          | grant | accept | other => simp [Act.finishes] at ending
          | finish key presented held released shrinks =>
              simp only [Act.finishes, decide_eq_true_eq] at ending
              subst ending
              have none : past.countP (Act.finishes presented) = 0 := by
                rcases ih onceBefore.1 with zero | ⟨_, dead, _⟩
                · exact zero
                · exact absurd held (dead key)
              refine .inr ⟨by simp [none, Act.finishes], fun other live => ?_, ?_⟩
              · have same := live_unique earlier onceBefore.1 (shrinks.live live) held
                rw [same, released] at live
                cases live
              · rw [List.filterMap_append]
                exact List.mem_append_left _ (mem_granted (live_granted earlier held))
        · rw [if_neg ending, Nat.add_zero]
          rcases ih onceBefore.1 with zero | ⟨one, dead, inside⟩
          · exact .inl zero
          · refine .inr ⟨one, fun key held => ?_, ?_⟩
            · rcases last.live held with old | rfl
              · exact dead key old
              · exact onceBefore.2.2 token inside token (by simp [Act.granted]) rfl
            · rw [List.filterMap_append]
              exact List.mem_append_left _ inside
  omega

end Library.Fence
