import PiSubagent.Lib.Layers
import PiSubagent.Preflight.Provenance

/-!
# Which definition an agent has

`discoverAgents` of directories that nobody changes meanwhile.

* `agentOf`, `definitionsOf`: the definition of a file, and those of sources.
* `Wins`: no other definition of the name has the scope or a higher one.
* **`agents_selected`**: a name has the definition that wins, in whatever order the sources are
  given; two definitions of one scope and name are refused.
-/

namespace PiSubagent

open JsonText

/-- The scope and the name of a definition. -/
def Preflight.AgentDefinition.identity (d : Preflight.AgentDefinition) :
    Preflight.AgentScope × JsString :=
  (d.scope, d.name)

namespace Preflight.Provenance

open Resources

variable {S : Sha256} {F : Files} {P : FrontmatterReader}

/-! ## What a loader returns -/

section Returns

variable {α β : Type} {w : Schedule} (t : ℕ)

theorem toOption_bind (x : Load α) (f : α → Load β) :
    ((x >>= f) t).toOption = (x t).toOption.bind fun r => (f r.1 r.2).toOption := by
  change (x t >>= fun r => f r.1 r.2).toOption = _
  cases x t <;> rfl

theorem toOption_call (f : Files → Except SystemError α) :
    (call w f t).toOption = (f (w t)).toOption.map fun a => (a, t + 1) := by
  unfold call
  cases f (w t) <;> rfl

theorem toOption_lift (x : Except LoadError α) :
    (lift x t).toOption = x.toOption.map fun a => (a, t) := by
  cases x <;> rfl

theorem toOption_throwIf {c : Prop} [Decidable c] (e : LoadError) :
    (throwIf c e t).toOption = if c then none else some ((), t) := by
  unfold throwIf
  split_ifs <;> rfl

theorem toOption_moment : (moment t).toOption = some (t, t) := rfl

theorem toOption_pure (a : α) : ((pure a : Load α) t).toOption = some (a, t) := rfl

end Returns

/-! ## Definitions of files that stay -/

/-- The path and the digest that `digestFileResource` gives of a file. -/
def digestOf (S : Sha256) (F : Files) (filePath : JsString) : Option (JsString × JsString) :=
  (F.realpath filePath).toOption.bind fun canonicalPath =>
    (F.lstat canonicalPath).toOption.bind fun metadata =>
      if metadata.kind ≠ .file ∨ defaultLimits.maxBytes < metadata.size then none
      else (F.readFile canonicalPath).toOption.map fun content =>
        (canonicalPath, S.digest content)

/-- The definition of a file. -/
def agentOf (S : Sha256) (F : Files) (P : FrontmatterReader) (scope : AgentScope)
    (filePath : JsString) : Option AgentDefinition :=
  (F.readFile filePath).toOption.bind fun bytes =>
    (readFrontmatter P filePath (utf8 bytes)).toOption.bind fun r =>
      (digestOf S F filePath).bind fun d =>
        (agentDefinition filePath scope r.1 r.2 d.1 d.2).toOption

theorem digestFileResource_settled (filePath : JsString) (t : ℕ) :
    (digestFileResource S (fun _ => F) filePath defaultLimits t).toOption.map
        (fun r => (r.1.canonicalPath, r.1.sha256)) = digestOf S F filePath := by
  have hfiles : ¬ (defaultLimits.maxFiles < 1 ∨ maxSafeInteger < defaultLimits.maxFiles) := by
    decide
  have hbytes : ¬ (defaultLimits.maxBytes < 1 ∨ maxSafeInteger < defaultLimits.maxBytes) := by
    decide
  unfold digestFileResource validateLimits digestOf
  simp only [toOption_bind, toOption_call, toOption_throwIf, toOption_moment, toOption_pure,
    if_neg hfiles, if_neg hbytes, Option.bind_some, Option.bind_map]
  cases F.realpath filePath with
  | error e => rfl
  | ok canonicalPath =>
    simp only [Except.toOption, Option.bind_some, Function.comp_apply]
    cases F.lstat canonicalPath with
    | error e => rfl
    | ok metadata =>
      simp only [Option.bind_some]
      by_cases hkind : metadata.kind = .file
      · by_cases hsize : defaultLimits.maxBytes < metadata.size
        · simp [hkind, hsize]
        · simp only [hkind, hsize]
          cases F.readFile canonicalPath <;> rfl
      · simp [hkind]

theorem loadAgent_settled (scope : AgentScope) (filePath : JsString) (t : ℕ) :
    (loadAgent S (fun _ => F) P filePath scope t).toOption.map (fun r => r.1.definition) =
      agentOf S F P scope filePath := by
  unfold loadAgent agentOf
  simp only [toOption_bind, toOption_call, toOption_lift, toOption_moment, toOption_pure,
    Option.bind_some, Option.bind_map]
  cases F.readFile filePath with
  | error e => rfl
  | ok bytes =>
    simp only [Except.toOption, Option.bind_some, Function.comp_apply]
    cases readFrontmatter P filePath (utf8 bytes) with
    | error e => rfl
    | ok r =>
      simp only [Option.bind_some]
      rw [← digestFileResource_settled filePath (t + 1)]
      cases digestFileResource S (fun _ => F) filePath defaultLimits (t + 1) with
      | error e => rfl
      | ok d =>
        simp only [Option.bind_some, Option.map_some, Except.toOption]
        cases agentDefinition filePath scope r.1 r.2 d.1.canonicalPath d.1.sha256 <;> rfl

theorem agentOf_scope {scope : AgentScope} {filePath : JsString} {d : AgentDefinition}
    (h : agentOf S F P scope filePath = some d) : d.scope = scope := by
  unfold agentOf at h
  obtain ⟨bytes, -, h⟩ := Option.bind_eq_some_iff.mp h
  obtain ⟨r, -, h⟩ := Option.bind_eq_some_iff.mp h
  obtain ⟨digest, -, h⟩ := Option.bind_eq_some_iff.mp h
  unfold agentDefinition at h
  cases ha : admittedModels filePath r.1 with
  | error e =>
    rw [ha] at h
    cases h
  | ok models =>
    rw [ha] at h
    cases h
    rfl

/-! ## Definitions of directories that stay -/

/-- The files of a directory that hold definitions. -/
def entriesOf (F : Files) (directory : JsString) : Option (List JsString) :=
  match F.readdir directory with
  | .ok names => some (sortBy id (names.filter fun name => (ofString ".md").isSuffixOf name))
  | .error .enoent => some []
  | .error .other => none

/-- The definition of a file of a source. -/
def entryOf (S : Sha256) (F : Files) (P : FrontmatterReader) (source : AgentSource)
    (entry : JsString) : Option AgentDefinition :=
  agentOf S F P source.scope (PosixPath.join source.directory entry)

/-- The definitions of a source. -/
def definitionsOf (S : Sha256) (F : Files) (P : FrontmatterReader) (source : AgentSource) :
    List AgentDefinition :=
  ((entriesOf F source.directory).getD []).filterMap (entryOf S F P source)

/-- The source is trusted when it is a project's, its directory can be listed, and every file of it is
a definition. -/
def Loadable (S : Sha256) (F : Files) (P : FrontmatterReader) (source : AgentSource) : Prop :=
  ¬ (source.scope = .project ∧ source.trusted = false) ∧
    ∃ entries, entriesOf F source.directory = some entries ∧
      ∀ entry ∈ entries, (entryOf S F P source entry).isSome

section Source

variable {source : AgentSource} {entries : List JsString}

theorem definitionsOf_entries (h : entriesOf F source.directory = some entries) :
    definitionsOf S F P source = entries.filterMap (entryOf S F P source) := by
  rw [definitionsOf, h, Option.getD_some]

theorem loadable_iff (htrusted : ¬ (source.scope = .project ∧ source.trusted = false))
    (h : entriesOf F source.directory = some entries) :
    Loadable S F P source ↔ ∀ entry ∈ entries, (entryOf S F P source entry).isSome := by
  constructor
  · rintro ⟨-, es, hes, hall⟩
    rw [h] at hes
    cases hes
    exact hall
  · intro hall
    exact ⟨htrusted, entries, h, hall⟩

theorem scope_of_mem_definitionsOf {d : AgentDefinition}
    (h : d ∈ definitionsOf S F P source) : d.scope = source.scope := by
  obtain ⟨entry, -, hd⟩ := List.mem_filterMap.mp h
  exact agentOf_scope hd

end Source

/-! ## What is selected -/

/-- The definitions are selected one after another, until one has scope and name of another. -/
def lay : List AgentDefinition → List (JsString × AgentDefinition) →
    List (AgentScope × JsString) →
      Option (List (JsString × AgentDefinition) × List (AgentScope × JsString))
  | [], selected, identities => some (selected, identities)
  | d :: ds, selected, identities =>
    if identities.contains d.identity then none
    else lay ds (OrderedMap.set d.name d selected) (d.identity :: identities)

/-- What is selected, without the files it was read from. -/
def definitionsIn (selected : List (JsString × Discovered)) : List (JsString × AgentDefinition) :=
  selected.map (Prod.map id Discovered.definition)

theorem lay_append (ds es : List AgentDefinition) (selected : List (JsString × AgentDefinition))
    (identities : List (AgentScope × JsString)) :
    lay (ds ++ es) selected identities =
      (lay ds selected identities).bind fun r => lay es r.1 r.2 := by
  induction ds generalizing selected identities with
  | nil => rfl
  | cons d ds ih =>
    rw [List.cons_append, lay, lay]
    split_ifs
    · rfl
    · exact ih _ _

theorem lay_eq_some {ds : List AgentDefinition} {selected : List (JsString × AgentDefinition)}
    {identities : List (AgentScope × JsString)}
    {r : List (JsString × AgentDefinition) × List (AgentScope × JsString)} :
    lay ds selected identities = some r ↔
      (ds.map AgentDefinition.identity).Nodup ∧ (∀ d ∈ ds, d.identity ∉ identities) ∧
        r = (OrderedMap.setAll AgentDefinition.name ds selected,
          (ds.map AgentDefinition.identity).reverse ++ identities) := by
  induction ds generalizing selected identities with
  | nil => simp [lay, OrderedMap.setAll, eq_comm]
  | cons d ds ih =>
    rw [lay]
    split_ifs with hd <;> rw [List.contains_iff_mem] at hd
    · refine ⟨fun h => ?_, fun h => absurd hd <| h.2.1 d List.mem_cons_self⟩
      cases h
    · rw [ih, OrderedMap.setAll_cons, List.map_cons, List.nodup_cons, List.reverse_cons,
        List.append_assoc, List.singleton_append]
      constructor
      · rintro ⟨hnodup, hfresh, rfl⟩
        refine ⟨⟨fun hm => ?_, hnodup⟩, ?_, rfl⟩
        · obtain ⟨e, he, hid⟩ := List.mem_map.mp hm
          exact hfresh e he <| hid ▸ List.mem_cons_self
        · rintro e he
          obtain rfl | he := List.mem_cons.mp he
          · exact hd
          · exact fun hm => hfresh e he <| List.mem_cons_of_mem _ hm
      · rintro ⟨⟨hnot, hnodup⟩, hfresh, rfl⟩
        refine ⟨hnodup, fun e he hm => ?_, rfl⟩
        obtain hid | hm := List.mem_cons.mp hm
        · exact hnot <| hid ▸ List.mem_map_of_mem he
        · exact hfresh e (List.mem_cons_of_mem _ he) hm

/-! ## Discovery -/

section Discovery

variable (t : ℕ) (selected : List (JsString × Discovered))
  (identities : List (AgentScope × JsString))

theorem discoverEntries_settled (source : AgentSource) (entries : List JsString)
    (r : List (JsString × AgentDefinition) × List (AgentScope × JsString)) :
    (discoverEntries S (fun _ => F) P source entries selected identities t).toOption.map
        (fun r => (definitionsIn r.1.1, r.1.2)) = some r ↔
      (∀ entry ∈ entries, (entryOf S F P source entry).isSome) ∧
        lay (entries.filterMap (entryOf S F P source)) (definitionsIn selected) identities =
          some r := by
  induction entries generalizing selected identities t with
  | nil => simp [discoverEntries, toOption_pure, lay]
  | cons entry entries ih =>
    rw [discoverEntries, toOption_bind, List.forall_mem_cons]
    have hload := loadAgent_settled (S := S) (F := F) (P := P) source.scope
      (PosixPath.join source.directory entry) t
    cases hl : (loadAgent S (fun _ => F) P (PosixPath.join source.directory entry) source.scope
        t).toOption with
    | none =>
      rw [hl] at hload
      have hnone : entryOf S F P source entry = none := hload.symm
      rw [hnone]
      simp
    | some a =>
      rw [hl] at hload
      have hsome : entryOf S F P source entry = some a.1.definition := hload.symm
      have hscope : a.1.definition.identity = (source.scope, a.1.definition.name) :=
        congrArg (·, a.1.definition.name) (agentOf_scope hsome)
      rw [Option.bind_some, toOption_bind, toOption_throwIf, List.filterMap_cons_some hsome, lay,
        hscope, hsome, Option.isSome_some]
      by_cases hid : (source.scope, a.1.definition.name) ∈ identities
      · simp [hid]
      · rw [if_neg hid, if_neg fun hc => hid <| List.contains_iff_mem.mp hc, Option.bind_some, ih,
          definitionsIn, OrderedMap.map_set]
        simp only [true_and, definitionsIn]

theorem readDirectory_settled (directory : JsString) :
    (readDirectory (fun _ => F) directory t).toOption.map Prod.fst = entriesOf F directory := by
  unfold readDirectory entriesOf
  cases F.readdir directory with
  | ok names => rfl
  | error e => cases e <;> rfl

theorem discoverSources_settled (sources : List AgentSource)
    (r : List (JsString × AgentDefinition)) :
    (discoverSources S (fun _ => F) P sources selected identities t).toOption.map
        (fun r => definitionsIn r.1) = some r ↔
      (∀ source ∈ sources, Loadable S F P source) ∧
        (lay (sources.flatMap (definitionsOf S F P)) (definitionsIn selected) identities).map
          Prod.fst = some r := by
  induction sources generalizing selected identities t with
  | nil => simp [discoverSources, toOption_pure, lay]
  | cons source sources ih =>
    rw [discoverSources, toOption_bind, toOption_throwIf, List.forall_mem_cons, List.flatMap_cons,
      lay_append]
    by_cases htrusted : source.scope = .project ∧ source.trusted = false
    · simp [Loadable, htrusted]
    · rw [if_neg htrusted, Option.bind_some, toOption_bind]
      have hread := readDirectory_settled (F := F) t source.directory
      cases hr : (readDirectory (fun _ => F) source.directory t).toOption with
      | none =>
        rw [hr] at hread
        have hnone : entriesOf F source.directory = none := hread.symm
        simp [Loadable, hnone]
      | some a =>
        rw [hr] at hread
        have hsome : entriesOf F source.directory = some a.1 := hread.symm
        have hentries := discoverEntries_settled (S := S) (F := F) (P := P) a.2 selected identities
          source a.1
        rw [← definitionsOf_entries hsome, ← loadable_iff htrusted hsome] at hentries
        rw [Option.bind_some, toOption_bind]
        cases he : (discoverEntries S (fun _ => F) P source a.1 selected identities
            a.2).toOption with
        | none =>
          rw [he] at hentries
          constructor
          · rintro ⟨⟩
          · rintro ⟨⟨hl, -⟩, hlay⟩
            obtain ⟨q, hlay, -⟩ := Option.map_eq_some_iff.mp hlay
            obtain ⟨q', hlay, -⟩ := Option.bind_eq_some_iff.mp hlay
            cases (hentries q').mpr ⟨hl, hlay⟩
        | some b =>
          rw [he] at hentries
          obtain ⟨hl, hlay⟩ := (hentries (definitionsIn b.1.1, b.1.2)).mp rfl
          rw [Option.bind_some, ih, hlay, Option.bind_some, and_iff_right hl]

end Discovery

theorem priority_injective : Function.Injective priority := by
  intro a b h
  cases a <;> cases b <;> first | rfl | cases h

/-- A scope has one priority, so definitions of different identities have different ranks. -/
theorem nodup_ranked {ds : List AgentDefinition} (h : (ds.map AgentDefinition.identity).Nodup) :
    (ds.map fun d => (d.name, priority d.scope)).Nodup := by
  have hinj : Function.Injective fun i : AgentScope × JsString => (i.2, priority i.1) := by
    rintro ⟨a, n⟩ ⟨b, m⟩ h
    obtain ⟨rfl, hp⟩ := Prod.mk.inj h
    exact congrArg (·, n) (priority_injective hp)
  have hranked := h.map hinj
  rwa [List.map_map] at hranked

/-- The definitions of sources in the order of their scopes are in the order of their scopes. -/
theorem pairwise_flatMap_definitionsOf {sources : List AgentSource}
    (h : sources.Pairwise fun a b => priority a.scope ≤ priority b.scope) :
    (sources.flatMap (definitionsOf S F P)).Pairwise fun d e =>
      priority d.scope ≤ priority e.scope := by
  rw [List.pairwise_flatMap]
  refine ⟨fun source _ => ?_, h.imp fun {a b} hle d hd e he => ?_⟩
  · refine List.pairwise_of_forall_mem_list fun d hd e he => ?_
    rw [scope_of_mem_definitionsOf hd, scope_of_mem_definitionsOf he]
  · rw [scope_of_mem_definitionsOf hd, scope_of_mem_definitionsOf he]
    exact hle

/-- **Which definition an agent has.** Of files that nobody changes meanwhile: the agents are
discovered exactly when every source can be loaded and no two definitions have the same scope and
the same name; a name then has the definition of the highest scope that defines it. -/
theorem agents_selected (S : Sha256) (F : Files) (P : FrontmatterReader)
    (sources : List AgentSource) (t : ℕ) :
    ((∃ r, discoverAgents S (fun _ => F) P sources t = .ok r) ↔
      (∀ source ∈ sources, Loadable S F P source) ∧
        ((sources.flatMap (definitionsOf S F P)).map AgentDefinition.identity).Nodup) ∧
    ∀ r, discoverAgents S (fun _ => F) P sources t = .ok r → ∀ name d,
      (OrderedMap.get name r.1).map Discovered.definition = some d ↔
        d.name = name ∧ OrderedMap.Wins AgentDefinition.name (fun d => priority d.scope)
          (sources.flatMap (definitionsOf S F P)) d := by
  let sorted := sources.insertionSort fun a b => priority a.scope ≤ priority b.scope
  have hperm : sorted.Perm sources := List.perm_insertionSort _ sources
  have hdefs : (sorted.flatMap (definitionsOf S F P)).Perm
      (sources.flatMap (definitionsOf S F P)) := hperm.flatMap_right _
  have hsorted := pairwise_flatMap_definitionsOf (S := S) (F := F) (P := P) <|
    List.pairwise_insertionSort (fun a b : AgentSource => priority a.scope ≤ priority b.scope)
      sources
  have hsettled (m : List (JsString × AgentDefinition)) :
      (discoverAgents S (fun _ => F) P sources t).toOption.map (fun r => definitionsIn r.1) =
          some m ↔
        (∀ source ∈ sources, Loadable S F P source) ∧
          ((sources.flatMap (definitionsOf S F P)).map AgentDefinition.identity).Nodup ∧
            OrderedMap.setAll AgentDefinition.name (sorted.flatMap (definitionsOf S F P)) [] = m := by
    rw [discoverAgents, discoverSources_settled, forall_congr' fun source => by rw [hperm.mem_iff],
      ← (hdefs.map AgentDefinition.identity).nodup_iff]
    refine and_congr_right fun _ => ?_
    rw [Option.map_eq_some_iff]
    constructor
    · rintro ⟨q, hlay, rfl⟩
      obtain ⟨hnodup, -, rfl⟩ := lay_eq_some.mp hlay
      exact ⟨hnodup, rfl⟩
    · rintro ⟨hnodup, rfl⟩
      exact ⟨_, lay_eq_some.mpr ⟨hnodup, fun _ _ => List.not_mem_nil, rfl⟩, rfl⟩
  refine ⟨⟨?_, ?_⟩, ?_⟩
  · rintro ⟨r, hr⟩
    rw [hr] at hsettled
    obtain ⟨hload, hnodup, -⟩ := (hsettled (definitionsIn r.1)).mp rfl
    exact ⟨hload, hnodup⟩
  · rintro ⟨hload, hnodup⟩
    have hsome := (hsettled _).mpr ⟨hload, hnodup, rfl⟩
    cases hd : discoverAgents S (fun _ => F) P sources t with
    | error e =>
      rw [hd] at hsome
      cases hsome
    | ok r => exact ⟨r, rfl⟩
  · intro r hr name d
    rw [hr] at hsettled
    obtain ⟨-, hnodup, hset⟩ := (hsettled (definitionsIn r.1)).mp rfl
    have hranked := nodup_ranked ((hdefs.map AgentDefinition.identity).nodup_iff.mpr hnodup)
    rw [← OrderedMap.get_map, ← definitionsIn, ← hset, OrderedMap.get_setAll_iff hsorted hranked,
      OrderedMap.Wins.congr fun d => hdefs.mem_iff]

end Preflight.Provenance

end PiSubagent
