import PiTools.Flux.Bundle
import PiTools.Flux.Insertion

/-
This file shows when the promotion of a bundle is all or nothing.
-/

namespace PiTools.Flux

open Library

/-! ### The promotion -/

/-- The resolved paths of a promotion and the names in the paths as they are given. -/
structure PromotionPaths where
  source : List String
  destination : List String
  aggregate : List String
  destinationName : String
  aggregateName : String
  aggregateFolder : String

/-- What a promotion changes. -/
structure Target where
  destination : Place
  aggregate : Place

inductive PromotionOutcome
  | returned
  | rejected (reason : PromotionError)
  | crashed

def aggregateName : String := "kustomization.yaml"

def bundleResource : List Char := sourceBundleName.toList

def aggregateText : Place → Except PromotionError (List Char)
  | .file content => readText aggregateName content
  | _ => .error (.notFile aggregateName)

def validateDestination : Place → Except PromotionError Unit
  | .missing => .ok ()
  | .directory _ => .ok ()
  | _ => .error (.notDirectory "target destination")

/-- The children of the source of a valid promotion. -/
def validateTargetLayout (paths : PromotionPaths) (source : Place) (target : Target) :
    Except PromotionError Children := do
  let children ← validateBundle paths.source source
  ensure (paths.destinationName = sourceBundleName) .destinationName
  ensure (paths.aggregateName = aggregateName ∧ paths.aggregateFolder = "apps") .aggregateLayout
  ensure (paths.destination ≠ paths.source) .sameDirectory
  ensure (paths.destination.dropLast = paths.aggregate.dropLast) .differentDirectories
  let text ← aggregateText target.aggregate
  let _ ← validateKustomizationForTarget text
  validateDestination target.destination
  pure children

def Children.sublist (children : Children) (entries : List (String × Node))
    (part : entries.Sublist children.entries) : Children where
  entries := entries
  unique := children.unique.sublist (part.map Prod.fst)

def Children.empty : Children := ⟨[], List.nodup_nil⟩

def Place.children : Place → Children
  | .directory children => children
  | _ => Children.empty

/-- The removal stops at a symlink. -/
def Children.remaining (children : Children) : Children :=
  children.sublist (children.entries.dropWhile fun child => !child.2.isSymlink) (List.dropWhile_sublist _)

/-- The copies stop at what is no file. -/
def Children.copied (children : Children) : Children :=
  children.sublist (children.entries.takeWhile fun child => child.2.isFile) (List.takeWhile_sublist _)

/-- All that the source holds when it is copied is a file: a destination in the source is none. -/
def copiesAll (paths : PromotionPaths) (children : Children) : Bool :=
  children.entries.all (fun child => child.2.isFile) && paths.destination.dropLast ≠ paths.source

def ensureAggregate (aggregate : Place) : Except PromotionError Place := do
  let text ← aggregateText aggregate
  match ← ensureResource text bundleResource with
  | none => pure aggregate
  | some after => pure (.file (.text after))

def synchronizeBundle (paths : PromotionPaths) (source : Place) (target : Target) :
    Target × PromotionOutcome :=
  match validateTargetLayout paths source target with
  | .error reason => (target, .rejected reason)
  | .ok children =>
      let remaining := target.destination.children.remaining
      if remaining.entries ≠ [] then
        ({ target with destination := .directory remaining }, .rejected (.symlink "target bundle"))
      -- A source inside the destination is removed with it.
      else if paths.destination.isPrefixOf paths.source then
        ({ target with destination := .directory Children.empty }, .crashed)
      else
        let copies := Place.directory children.copied
        if copiesAll paths children = false then ({ target with destination := copies }, .crashed)
        else
          match ensureAggregate target.aggregate with
          | .error reason => ({ target with destination := copies }, .rejected reason)
          | .ok aggregate => ({ destination := copies, aggregate := aggregate }, .returned)

/-! ### All or nothing -/

/-- Two places hold the same. -/
def SameTree : Place → Place → Prop
  | .directory first, .directory second => ∀ name, first.lookup name = second.lookup name
  | first, second => first = second

def Target.Same (first second : Target) : Prop :=
  SameTree first.destination second.destination ∧ first.aggregate = second.aggregate

/-- The destination holds the required files as they are in the source, and nothing else. -/
def HoldsBundle (source destination : Place) : Prop :=
  ∃ children copies, source = .directory children ∧ destination = .directory copies ∧
    (∀ name ∉ requiredFiles, copies.lookup name = none) ∧
      ∀ name ∈ requiredFiles, ∃ content,
        children.lookup name = some (.file content) ∧ copies.lookup name = some (.file content)

/-- The aggregate is as before or has one more line, and it lists the bundle once. -/
def Registers (before after : Place) : Prop :=
  ∃ old new entries, before = .file (.text old) ∧ after = .file (.text new) ∧
    (new = old ∨ InsertsLine old new) ∧ resourceEntries (universalNewlines new) = .ok entries ∧
      listedTimes bundleResource entries = 1

/-- A rejected promotion changes nothing. A promotion that returns has its whole effect, and then
another one changes nothing. -/
def AllOrNothing (paths : PromotionPaths) (source : Place) (target : Target) : Prop :=
  let run := synchronizeBundle paths source target
  match run.2 with
  | .rejected _ => run.1.Same target
  | .returned => HoldsBundle source run.1.destination ∧ Registers target.aggregate run.1.aggregate ∧
      (synchronizeBundle paths source run.1).1.Same run.1
  | .crashed => True

/-- The aggregate lists the bundle once, or the bundle can be added to its list without any other
change. If it lists the bundle more than once, then the destination holds the source's files already. -/
def Extendable (children : Children) (target : Target) : Prop :=
  ∀ text entries, target.aggregate = .file (.text text) → resourceEntries (universalNewlines text) = .ok entries →
    (1 < listedTimes bundleResource entries → SameTree (.directory children) target.destination) ∧
      (listedTimes bundleResource entries = 0 → '\r' ∉ text ∧ ¬ GoesOn text)

/-- A symlink in the destination is its first child, and an aggregate that is reached can be kept or
extended. -/
def Safe (paths : PromotionPaths) (source : Place) (target : Target) : Prop :=
  ∀ children, validateTargetLayout paths source target = .ok children →
    let entries := target.destination.children.entries
    ((∃ child ∈ entries, child.2.isSymlink = true) → entries.head?.any (fun child => child.2.isSymlink) = true) ∧
      ((∀ child ∈ entries, child.2.isSymlink = false) → paths.destination.isPrefixOf paths.source = false →
        copiesAll paths children = true → Extendable children target)

/-! ### Children -/

theorem Children.lookup_eq_some {children : Children} {name : String} {node : Node} :
    children.lookup name = some node ↔ (name, node) ∈ children.entries := by
  obtain ⟨entries, unique⟩ := children
  rw [Children.lookup]
  induction entries with
  | nil => simp
  | cons child rest ih =>
      obtain ⟨other, found⟩ := child
      obtain ⟨fresh, unique⟩ := List.nodup_cons.mp unique
      rw [List.lookup_cons, List.mem_cons]
      by_cases same : name = other
      · subst same
        have absent : (name, node) ∉ rest := fun member => fresh (List.mem_map.mpr ⟨_, member, rfl⟩)
        simp [absent, eq_comm]
      · rw [beq_false_of_ne same]
        simpa [same] using ih unique

theorem SameTree.refl (place : Place) : SameTree place place := by
  cases place with
  | directory children => exact fun name => rfl
  | missing => rfl
  | file content => rfl
  | symlink => rfl
  | special => rfl

theorem Children.ext {first second : Children} (same : first.entries = second.entries) : first = second := by
  cases first
  cases second
  cases same
  rfl

theorem Children.remaining_eq_nil {children : Children} :
    children.remaining.entries = [] ↔ ∀ child ∈ children.entries, child.2.isSymlink = false := by
  change List.dropWhile _ _ = _ ↔ _
  simp [List.dropWhile_eq_nil_iff]

theorem Children.remaining_same {children : Children}
    (first : children.entries.head?.any (fun child => child.2.isSymlink) = true) :
    children.remaining = children := by
  apply Children.ext
  change List.dropWhile _ _ = _
  cases found : children.entries with
  | nil => rfl
  | cons child rest =>
      rw [found] at first
      exact List.dropWhile_cons_of_neg (by simpa using first)

/-- A child that is removed is missed. -/
theorem Children.remaining_other {children : Children} (filled : children.entries ≠ [])
    (first : children.entries.head?.any (fun child => child.2.isSymlink) = false) :
    ¬ SameTree (.directory children.remaining) (.directory children) := by
  obtain ⟨child, rest, found⟩ := List.exists_cons_of_ne_nil filled
  intro same
  have listed : children.lookup child.1 = some child.2 := by
    apply Children.lookup_eq_some.mpr
    rw [found]
    exact .head _
  have kept := Children.lookup_eq_some.mp ((same child.1).trans listed)
  have removed : children.remaining.entries = rest.dropWhile fun child => !child.2.isSymlink := by
    change List.dropWhile _ _ = _
    rw [found] at first ⊢
    exact List.dropWhile_cons_of_pos (by simpa using first)
  rw [removed] at kept
  have unique := children.unique
  rw [found, List.map_cons, List.nodup_cons] at unique
  exact unique.1 (List.mem_map_of_mem ((List.dropWhile_sublist _).subset kept))

theorem Children.copied_same {children : Children}
    (files : ∀ child ∈ children.entries, child.2.isFile = true) : children.copied = children := by
  apply Children.ext
  exact List.takeWhile_eq_self_iff.mpr files

/-! ### Valid promotions -/

/-- What holds when a promotion is valid. -/
structure Valid (paths : PromotionPaths) (source : Place) (target : Target) (children : Children)
    (text : List Char) (entries : List (List Char × List Char)) : Prop where
  bundle : source = .directory children
  required : ∀ file, file ∈ requiredFiles ↔ ∃ content, children.lookup file = some (.file content)
  read : aggregateText target.aggregate = .ok text
  valid : validateKustomizationForTarget text = .ok entries
  destination : target.destination = .missing ∨ target.destination = .directory target.destination.children

theorem validateBundle_ok {path : List String} {source : Place} {children : Children}
    (valid : validateBundle path source = .ok children) : source = .directory children ∧
      ∀ file, file ∈ requiredFiles ↔ ∃ content, children.lookup file = some (.file content) := by
  unfold validateBundle at valid
  split at valid
  · cases valid
  · rename_i found
    simp only [bind_eq_ok, ensure_eq_ok, pure_eq_ok] at valid
    obtain ⟨-, -, -, -, -, -, -, ⟨inside, whole⟩, -, -, -, -, -, -, -, -, rfl⟩ := valid
    refine ⟨rfl, fun file => ?_⟩
    have listed : file ∈ (found.entries.filter fun child => child.2.isFile).map Prod.fst ↔
        ∃ content, found.lookup file = some (.file content) := by
      simp only [List.mem_map, List.mem_filter, Children.lookup_eq_some]
      constructor
      · rintro ⟨⟨name, node⟩, ⟨member, isFile⟩, rfl⟩
        cases node with
        | file content => exact ⟨content, member⟩
        | directory children => cases isFile
        | symlink target => cases isFile
        | special => cases isFile
      · rintro ⟨content, member⟩
        exact ⟨_, ⟨member, rfl⟩, rfl⟩
    rw [← listed]
    exact ⟨whole file, inside file⟩
  · cases valid

variable {paths : PromotionPaths} {source : Place} {target : Target} {children : Children}

theorem validateTargetLayout_ok (valid : validateTargetLayout paths source target = .ok children) :
    ∃ text entries, Valid paths source target children text entries := by
  simp only [validateTargetLayout, bind_eq_ok, ensure_eq_ok, pure_eq_ok] at valid
  obtain ⟨_, bundle, -, -, -, -, -, -, -, -, text, read, entries, listed, _, place, rfl⟩ := valid
  obtain ⟨rfl, required⟩ := validateBundle_ok bundle
  refine ⟨text, entries, rfl, required, read, listed, ?_⟩
  cases found : target.destination with
  | missing => exact .inl rfl
  | directory children => exact .inr rfl
  | file content =>
      rw [found] at place
      cases place
  | symlink =>
      rw [found] at place
      cases place
  | special =>
      rw [found] at place
      cases place

theorem aggregateText_ok {aggregate : Place} {text : List Char} (read : aggregateText aggregate = .ok text) :
    ∃ raw, aggregate = .file (.text raw) ∧ text = universalNewlines raw := by
  cases aggregate with
  | file content =>
      cases content with
      | text raw =>
          cases read
          exact ⟨raw, rfl, rfl⟩
      | binary bytes => cases read
  | missing => cases read
  | directory children => cases read
  | symlink => cases read
  | special => cases read

/-- A promotion of a bundle that is copied whole. -/
structure Copied (paths : PromotionPaths) (source : Place) (target : Target) (children : Children) : Prop where
  valid : validateTargetLayout paths source target = .ok children
  noLinks : ∀ child ∈ target.destination.children.entries, child.2.isSymlink = false
  outside : paths.destination.isPrefixOf paths.source = false
  whole : copiesAll paths children = true

theorem Copied.files (copied : Copied paths source target children) :
    ∀ child ∈ children.entries, child.2.isFile = true := by
  have whole := copied.whole
  rw [copiesAll, Bool.and_eq_true, List.all_eq_true] at whole
  exact whole.1

theorem Copied.run (copied : Copied paths source target children) :
    synchronizeBundle paths source target =
      match ensureAggregate target.aggregate with
      | .error reason => ({ target with destination := .directory children }, .rejected reason)
      | .ok aggregate => ({ destination := .directory children, aggregate := aggregate }, .returned) := by
  unfold synchronizeBundle
  rw [copied.valid]
  dsimp only
  rw [if_neg (not_not.mpr (Children.remaining_eq_nil.mpr copied.noLinks)), if_neg (by simp [copied.outside]),
    if_neg (by simp [copied.whole]), Children.copied_same copied.files]

theorem Copied.holds (copied : Copied paths source target children) : HoldsBundle source (.directory children) := by
  obtain ⟨text, entries, valid⟩ := validateTargetLayout_ok copied.valid
  refine ⟨children, children, valid.bundle, rfl, fun name other => ?_, fun name required => ?_⟩
  · cases found : children.lookup name with
    | none => rfl
    | some node =>
        have isFile := copied.files _ (Children.lookup_eq_some.mp found)
        cases node with
        | file content => exact absurd ((valid.required name).mpr ⟨content, found⟩) other
        | directory children => cases isFile
        | symlink target => cases isFile
        | special => cases isFile
  · obtain ⟨content, found⟩ := (valid.required name).mp required
    exact ⟨content, found, found⟩

theorem universalNewlines_plain {text : List Char} (plain : '\r' ∉ text) : universalNewlines text = text := by
  induction text with
  | nil => rfl
  | cons c rest ih =>
      obtain ⟨other, plain⟩ := not_or.mp (List.mem_cons.not.mp plain)
      rw [universalNewlines, if_neg (Ne.symm other), ih plain]

theorem plain_universalNewlines (text : List Char) : '\r' ∉ universalNewlines text := by
  induction text with
  | nil => exact List.not_mem_nil
  | cons c rest ih =>
      rw [universalNewlines]
      split
      · split
        · exact ih
        · simpa using ih
      · rename_i other
        simpa [eq_comm, other] using ih

/-! ### The aggregate -/

theorem bundleResource_name : EntryName bundleResource := ⟨by decide, by decide⟩

theorem ensureAggregate_text (raw : List Char) :
    ensureAggregate (.file (.text raw)) =
      match ensureResource (universalNewlines raw) bundleResource with
      | .error reason => .error reason
      | .ok none => .ok (.file (.text raw))
      | .ok (some after) => .ok (.file (.text after)) := by
  change (ensureResource (universalNewlines raw) bundleResource >>= fun found => _) = _
  cases ensureResource (universalNewlines raw) bundleResource with
  | error reason => rfl
  | ok found => cases found <;> rfl

/-- A text with a carriage return does not only get a line. -/
theorem plain_of_insertsLine {before after : List Char} (inserts : InsertsLine before after)
    (plain : '\r' ∉ after) : '\r' ∉ before := by
  obtain ⟨front, line, back, split, rfl, -, -⟩ := inserts
  intro member
  have ended : '\r' ∈ endedText before := by
    rw [endedText]
    split
    · exact member
    · exact List.mem_append_left _ member
  rw [split] at ended
  rcases List.mem_append.mp ended with inFront | inBack
  · exact plain (List.mem_append_left _ inFront)
  · exact plain (List.mem_append_right _ (List.mem_append_right _ (.tail _ inBack)))

section

variable {raw : List Char} {entries : List (List Char × List Char)}

/-- The bundle is registered when the aggregate lists it once. -/
theorem registers_of_listed (read : resourceEntries (universalNewlines raw) = .ok entries)
    (once : listedTimes bundleResource entries = 1) : Registers (.file (.text raw)) (.file (.text raw)) :=
  ⟨raw, raw, entries, rfl, rfl, .inl rfl, read, once⟩

/-- An extended aggregate registers the bundle exactly when the list ends for good and no line
ending was changed. -/
theorem Extended.registers_iff {after line : List Char} {tail extended : List (List Char)}
    (more : Extended (universalNewlines raw) bundleResource after entries line tail extended)
    (never : listedTimes bundleResource entries = 0) :
    Registers (.file (.text raw)) (.file (.text after)) ↔ '\r' ∉ raw ∧ ¬ GoesOn raw := by
  have plainAfter := more.plain_after bundleResource_name (plain_universalNewlines raw)
  have inserts := more.insertsLine bundleResource_name
  obtain ⟨closed, goesOn⟩ := more.entries_after bundleResource_name
  constructor
  · rintro ⟨old, new, listed, sameOld, sameNew, changed, read, once⟩
    cases sameOld
    cases sameNew
    have plain : '\r' ∉ raw := by
      rcases changed with rfl | inserts
      · exact plainAfter
      · exact plain_of_insertsLine inserts plainAfter
    refine ⟨plain, fun beyond => ?_⟩
    rw [universalNewlines_plain plain] at goesOn
    rw [universalNewlines_plain plainAfter, goesOn beyond] at read
    cases read
    omega
  · rintro ⟨plain, ends⟩
    rw [universalNewlines_plain plain] at closed inserts
    obtain ⟨front, read⟩ := closed ends
    refine ⟨raw, after, entries ++ [(front, bundleResource)], rfl, rfl, .inr inserts, ?_, ?_⟩
    · rw [universalNewlines_plain plainAfter]
      exact read
    · rw [listedTimes] at never ⊢
      simp [never]

end

/-! ### The promotion of a bundle -/

/-- A promotion changes nothing when the bundle is copied already and the aggregate lists it once. -/
theorem Copied.again (copied : Copied paths source target children) {aggregate : Place}
    (registers : Registers target.aggregate aggregate) :
    (synchronizeBundle paths source ⟨.directory children, aggregate⟩).1.Same ⟨.directory children, aggregate⟩ := by
  cases valid : validateTargetLayout paths source ⟨.directory children, aggregate⟩ with
  | error reason =>
      unfold synchronizeBundle
      rw [valid]
      exact ⟨SameTree.refl _, rfl⟩
  | ok found =>
      obtain ⟨text, entries, layout⟩ := validateTargetLayout_ok valid
      obtain ⟨_, _, before⟩ := validateTargetLayout_ok copied.valid
      have same : found = children := by
        have bundle := layout.bundle.symm.trans before.bundle
        cases bundle
        rfl
      subst same
      have second : Copied paths source ⟨.directory found, aggregate⟩ found := by
        refine ⟨valid, fun child member => ?_, copied.outside, copied.whole⟩
        have isFile := copied.files child member
        obtain ⟨name, node⟩ := child
        cases node with
        | file content => rfl
        | directory children => cases isFile
        | symlink target => cases isFile
        | special => cases isFile
      obtain ⟨_, raw, listed, _, rfl, _, read, once⟩ := registers
      have checked := layout.valid
      cases layout.read
      have listedSame := validateKustomizationForTarget_entries checked
      rw [read] at listedSame
      cases listedSame
      rw [second.run, ensureAggregate_text, (ensureResource_valid checked).2.1 once]
      exact ⟨SameTree.refl _, rfl⟩

theorem Copied.allOrNothing_iff (copied : Copied paths source target children) :
    AllOrNothing paths source target ↔ Extendable children target := by
  obtain ⟨text, entries, valid⟩ := validateTargetLayout_ok copied.valid
  obtain ⟨raw, file, rfl⟩ := aggregateText_ok valid.read
  have listed := validateKustomizationForTarget_entries valid.valid
  have extendable : Extendable children target ↔
      (1 < listedTimes bundleResource entries → SameTree (.directory children) target.destination) ∧
        (listedTimes bundleResource entries = 0 → '\r' ∉ raw ∧ ¬ GoesOn raw) := by
    constructor
    · intro holds
      exact holds raw entries file listed
    · intro holds other found same read
      rw [file] at same
      cases same
      rw [listed] at read
      cases read
      exact holds
  obtain ⟨many, once, never⟩ := ensureResource_valid valid.valid
  rw [extendable, AllOrNothing, copied.run, file, ensureAggregate_text]
  rcases Nat.lt_trichotomy 1 (listedTimes bundleResource entries) with more | same | fewer
  · rw [many more]
    change _ ∧ _ ↔ _
    constructor
    · rintro ⟨kept, -⟩
      exact ⟨fun _ => kept, fun zero => by omega⟩
    · rintro ⟨kept, -⟩
      exact ⟨kept more, file.symm⟩
  · rw [once same.symm]
    have registers := registers_of_listed listed same.symm
    have before : Registers target.aggregate (.file (.text raw)) := by
      rw [file]
      exact registers
    constructor
    · intro _
      constructor <;> omega
    · intro _
      exact ⟨copied.holds, registers, copied.again before⟩
  · obtain ⟨after, line, tail, extended, result, more⟩ := never (by omega)
    rw [result]
    have registers := more.registers_iff (by omega)
    constructor
    · rintro ⟨-, once, -⟩
      exact ⟨fun many => by omega, fun _ => registers.mp once⟩
    · rintro ⟨-, closed⟩
      have once := registers.mpr (closed (by omega))
      exact ⟨copied.holds, once, copied.again (file ▸ once)⟩

/-- A promotion that meets a symlink is rejected, and it changes nothing when the symlink comes first. -/
theorem allOrNothing_of_link (layout : validateTargetLayout paths source target = .ok children)
    (link : ∃ child ∈ target.destination.children.entries, child.2.isSymlink = true) :
    AllOrNothing paths source target ↔
      target.destination.children.entries.head?.any (fun child => child.2.isSymlink) = true := by
  obtain ⟨text, entries, valid⟩ := validateTargetLayout_ok layout
  have stays : target.destination.children.remaining.entries ≠ [] := by
    intro empty
    obtain ⟨child, member, isLink⟩ := link
    rw [Children.remaining_eq_nil.mp empty child member] at isLink
    cases isLink
  have filled : target.destination.children.entries ≠ [] := by
    intro empty
    rw [empty] at link
    obtain ⟨child, member, -⟩ := link
    cases member
  have place : target.destination = .directory target.destination.children := by
    rcases valid.destination with missing | found
    · rw [missing] at filled
      exact absurd rfl filled
    · exact found
  have stopped : AllOrNothing paths source target ↔
      SameTree (.directory target.destination.children.remaining) target.destination := by
    rw [AllOrNothing, synchronizeBundle, layout]
    dsimp only
    rw [if_pos stays]
    exact and_iff_left rfl
  rw [stopped]
  cases first : target.destination.children.entries.head?.any fun child => child.2.isSymlink with
  | true =>
      rw [Children.remaining_same first, ← place]
      exact iff_of_true (SameTree.refl _) rfl
  | false =>
      have other := Children.remaining_other filled first
      rw [← place] at other
      exact iff_of_false other Bool.false_ne_true

/-- A promotion whose copy is not complete ends in a crash. -/
theorem allOrNothing_of_crash (layout : validateTargetLayout paths source target = .ok children)
    (noLinks : ∀ child ∈ target.destination.children.entries, child.2.isSymlink = false)
    (incomplete : ¬ (paths.destination.isPrefixOf paths.source = false ∧ copiesAll paths children = true)) :
    AllOrNothing paths source target := by
  rw [AllOrNothing, synchronizeBundle, layout]
  dsimp only
  rw [if_neg (not_not.mpr (Children.remaining_eq_nil.mpr noLinks))]
  cases inside : paths.destination.isPrefixOf paths.source with
  | true => trivial
  | false =>
      have partly : copiesAll paths children = false := by simpa [inside] using incomplete
      rw [if_neg Bool.false_ne_true, if_pos partly]
      trivial

/-- A promotion is all or nothing exactly when it is safe. -/
theorem promotion_all_or_nothing_iff (paths : PromotionPaths) (source : Place) (target : Target) :
    AllOrNothing paths source target ↔ Safe paths source target := by
  cases layout : validateTargetLayout paths source target with
  | error reason =>
      have rejected : AllOrNothing paths source target := by
        rw [AllOrNothing, synchronizeBundle, layout]
        exact ⟨SameTree.refl _, rfl⟩
      have safe : Safe paths source target := by
        intro children valid
        rw [layout] at valid
        cases valid
      exact iff_of_true rejected safe
  | ok children =>
      have safe : Safe paths source target ↔
          ((∃ child ∈ target.destination.children.entries, child.2.isSymlink = true) →
            target.destination.children.entries.head?.any (fun child => child.2.isSymlink) = true) ∧
          ((∀ child ∈ target.destination.children.entries, child.2.isSymlink = false) →
            paths.destination.isPrefixOf paths.source = false → copiesAll paths children = true →
              Extendable children target) := by
        constructor
        · intro holds
          exact holds children layout
        · intro holds other same
          rw [layout] at same
          cases same
          exact holds
      rw [safe]
      by_cases link : ∃ child ∈ target.destination.children.entries, child.2.isSymlink = true
      · have links : ¬ ∀ child ∈ target.destination.children.entries, child.2.isSymlink = false := by
          simpa using link
        rw [allOrNothing_of_link layout link]
        exact ⟨fun first => ⟨fun _ => first, fun noLinks => absurd noLinks links⟩, fun holds => holds.1 link⟩
      · have noLinks : ∀ child ∈ target.destination.children.entries, child.2.isSymlink = false := by
          simpa using link
        by_cases reaches : paths.destination.isPrefixOf paths.source = false ∧ copiesAll paths children = true
        · rw [Copied.allOrNothing_iff ⟨layout, noLinks, reaches.1, reaches.2⟩]
          exact ⟨fun holds => ⟨fun linked => absurd linked link, fun _ _ _ => holds⟩,
            fun holds => holds.2 noLinks reaches.1 reaches.2⟩
        · refine iff_of_true (allOrNothing_of_crash layout noLinks reaches)
            ⟨fun linked => absurd linked link, fun _ outside whole => ?_⟩
          exact absurd ⟨outside, whole⟩ reaches

/-! ### A rejected promotion that removes a file -/

def exampleManifest (images : List Char) : Node :=
  .file (.text ("apiVersion: v1\nkind: Service\nmetadata:\n  name: pitools\n".toList ++ images))

def exampleImage (start : List Char) : List Char := "image: ".toList ++ start ++ List.replicate 64 '0' ++ ['\n']

def exampleBundle : Children where
  entries :=
    [("kustomization.yaml", .file (.text ("apiVersion: kustomize.config.k8s.io/v1beta1\nkind: Kustomization\n".toList ++
      "resources:\n- app.yaml\n- route.yaml\n- networkpolicy.yaml\n".toList))),
      ("app.yaml", exampleManifest (exampleImage coreImagePrefix ++ exampleImage runnerImagePrefix)),
      ("route.yaml", exampleManifest []), ("networkpolicy.yaml", exampleManifest [])]
  unique := by decide

def examplePaths : PromotionPaths where
  source := ["release", "pitools"]
  destination := ["flux", "apps", "pitools"]
  aggregate := ["flux", "apps", "kustomization.yaml"]
  destinationName := "pitools"
  aggregateName := "kustomization.yaml"
  aggregateFolder := "apps"

/-- The destination has a file in front of a symlink. -/
def exampleTarget : Target where
  destination := .directory
    { entries := [("app.yaml", .file (.text "kind: Service\n".toList)), ("current", .symlink "app.yaml")]
      unique := by decide }
  aggregate := .file (.text "kind: Kustomization\nresources:\n- pitools\n".toList)

theorem rejected_promotion_removes :
    ¬ AllOrNothing examplePaths (.directory exampleBundle) exampleTarget := by
  have accepted : (validateTargetLayout examplePaths (.directory exampleBundle) exampleTarget).toBool = true := by
    decide +kernel
  cases layout : validateTargetLayout examplePaths (.directory exampleBundle) exampleTarget with
  | error reason =>
      rw [layout] at accepted
      exact absurd accepted Bool.false_ne_true
  | ok children =>
      rw [allOrNothing_of_link layout ⟨("current", .symlink "app.yaml"), .tail _ (.head _), rfl⟩]
      exact Bool.false_ne_true

end PiTools.Flux
