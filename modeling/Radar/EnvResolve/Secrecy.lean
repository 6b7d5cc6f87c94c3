import Radar.EnvResolve.Resolver

/-!
# Sensitive values stay behind

Two source maps that differ in the values of sensitive keys only lead to the
same rows. Bindings of the two runs agree but for the value of a sensitive
one, and every step of the resolution keeps it so.
-/

set_option autoImplicit false

namespace Radar.EnvResolve

section Alike

/-- The same source, apart from the values of its keys if it is sensitive. -/
structure SourceData.Alike (d d' : SourceData) : Prop where
  rest : d' = { d with values := d'.values }
  keys : ∀ k, k ∈ d.values ↔ k ∈ d'.values
  values : d.sensitive = false → ∀ k, d.values.lookup k = d'.values.lookup k

def SourcesAlike (sources sources' : Sources) : Prop :=
  ∀ id, Option.Rel SourceData.Alike (sources id) (sources' id)

structure Binding.Alike (b b' : Binding) : Prop where
  row : b.row = b'.row
  available : b.available = b'.available
  value : b.row.sensitive = false → b.value = b'.value

def BindingsAlike (bindings bindings' : Bindings) : Prop :=
  ∀ name, Option.Rel Binding.Alike (bindings.lookup name) (bindings'.lookup name)

structure Expansion.Alike (e e' : Expansion) : Prop where
  rest : e' = { e with out := e'.out }
  out : e.sensitive = false → e.out = e'.out

structure Bound.Alike (b b' : Bound) : Prop where
  bindings : BindingsAlike b.bindings b'.bindings
  shadowed : b.shadowed = b'.shadowed

theorem rel_cases {α : Type*} {r : α → α → Prop} {o o' : Option α} (h : Option.Rel r o o') :
    (o = none ∧ o' = none) ∨ ∃ a a', o = some a ∧ o' = some a' ∧ r a a' := by
  cases h with
  | none => exact .inl ⟨rfl,rfl⟩
  | some h => exact .inr ⟨_,_,rfl,rfl,h⟩

theorem Binding.Alike.refl (b : Binding) : b.Alike b := ⟨rfl,rfl,fun _ => rfl⟩

end Alike

section Expand

variable {bindings bindings' : Bindings} {e e' : Expansion}

theorem write_alike (h : e.Alike e') (text : List Char) : (e.write text).Alike (e'.write text) := by
  constructor
  · rw [h.rest]
    rfl
  · intro hs
    exact congrArg (·++text) (h.out hs)

theorem refer_alike (hb : BindingsAlike bindings bindings') (h : e.Alike e')
    (name raw : List Char) :
    (e.refer bindings name raw).Alike (e'.refer bindings' name raw) := by
  unfold Expansion.refer
  obtain ⟨hdep,hdep'⟩ | ⟨dep,dep',hdep,hdep',hrow,havail,hvalue⟩ :=
    rel_cases (hb (String.ofList name))
  · rw [hdep, hdep']
    have hw := write_alike h raw
    constructor
    · rw [hw.rest]
    · exact hw.out
  · simp only [hdep, hdep', ← hrow, ← havail]
    by_cases hskip : dep.row.state = .missing ∧ dep.row.optional = true
    · rw [if_pos hskip, if_pos hskip]
      exact write_alike h raw
    · rw [if_neg hskip, if_neg hskip]
      constructor
      · rw [h.rest]
      · intro hs
        rw [Bool.or_eq_false_iff] at hs
        rw [h.out hs.1, hvalue hs.2]

theorem expandFrom_alike (hb : BindingsAlike bindings bindings') (h : e.Alike e') (s : List Char) :
    (expandFrom bindings e s).Alike (expandFrom bindings' e' s) := by
  induction e, s using expandFrom.induct bindings generalizing e' with
  | case1 e => simpa only [expandFrom] using h
  | case2 e s ih =>
    rw [expandFrom, expandFrom]
    exact ih (write_alike h _)
  | case3 e s hcut =>
    rw [expandFrom, expandFrom, hcut]
    exact write_alike h _
  | case4 e s name rest hcut ih =>
    rw [expandFrom, expandFrom, hcut]
    exact ih (refer_alike hb h _ _)
  | case5 e c s hesc href ih =>
    rw [expandFrom, expandFrom] <;> try assumption
    exact ih (write_alike h _)

end Expand

section Steps

variable {Quantity : Type} {lib : Lib Quantity} {choices choices' : Choices}
variable {bindings bindings' : Bindings} {sources sources' : Sources} {b b' : Bound}

theorem expand_alike (hb : BindingsAlike bindings bindings') (input : String) :
    (expand input bindings).Alike (expand input bindings') := by
  have h : (expandFrom bindings {} input.toList).Alike (expandFrom bindings' {} input.toList) :=
    expandFrom_alike hb ⟨rfl,fun _ => rfl⟩ input.toList
  unfold expand
  constructor
  · rw [h.rest]
  · exact h.out

theorem resolveDirect_alike (hb : BindingsAlike bindings bindings') (name value : String) :
    (resolveDirect name value bindings).Alike (resolveDirect name value bindings') := by
  have h := expand_alike hb value
  unfold resolveDirect
  constructor
  · rw [h.rest]
  · rw [h.rest]
  · intro hs
    exact congrArg String.ofList (h.out hs)

theorem sourceOf_alike (h : SourcesAlike sources sources') (kind name : String) :
    Option.Rel SourceData.Alike (sourceOf sources kind name) (sourceOf sources' kind name) := by
  unfold sourceOf
  obtain ⟨hs,hs'⟩ | ⟨d,d',hs,hs',hd⟩ := rel_cases (h { kind := kind, name := name })
  · rw [hs, hs']
    exact .none
  · have hkind : d'.kind = d.kind := by rw [hd.rest]
    rw [hs, hs']
    simp only [Option.filter_some, hkind]
    split_ifs
    · exact .some hd
    · exact .none

theorem SourceData.Alike.refl (d : SourceData) : d.Alike d := ⟨rfl,fun _ => Iff.rfl,fun _ _ => rfl⟩

theorem source_alike (h : SourcesAlike sources sources') (kind name : String) (d : SourceData) :
    ((sourceOf sources kind name).getD d).Alike ((sourceOf sources' kind name).getD d) := by
  obtain ⟨hs,hs'⟩ | ⟨d₁,d₂,hs,hs',hd⟩ := rel_cases (sourceOf_alike h kind name)
  · rw [hs, hs']
    exact SourceData.Alike.refl d
  · rw [hs, hs']
    exact hd

theorem lookup_alike {d d' : SourceData} (h : d.Alike d') (key : String) :
    Option.Rel (fun v v' => d.sensitive = false → v = v') (d.values.lookup key)
      (d'.values.lookup key) := by
  have hkey : (d.values.lookup key).isSome ↔ (d'.values.lookup key).isSome := by
    rw [AList.lookup_isSome, AList.lookup_isSome]
    exact h.keys key
  have hvalue := fun hs => h.values hs key
  cases hv : d.values.lookup key with
  | none =>
    cases hv' : d'.values.lookup key with
    | none => exact .none
    | some v' => simp [hv, hv'] at hkey
  | some v =>
    cases hv' : d'.values.lookup key with
    | none => simp [hv, hv'] at hkey
    | some v' =>
      apply Option.Rel.some
      intro hs
      rw [hv, hv'] at hvalue
      exact Option.some.inj (hvalue hs)

theorem resolveKeyRef_alike (h : SourcesAlike sources sources') (envName kind name key : String)
    (optional : Bool) :
    (resolveKeyRef envName kind name key optional sources).Alike
      (resolveKeyRef envName kind name key optional sources') := by
  have hd := source_alike h kind name { kind := kind, name := name, state := .missing }
  unfold resolveKeyRef
  generalize (sourceOf sources kind name).getD _ = d at hd
  generalize (sourceOf sources' kind name).getD _ = d' at hd
  have hstate : d'.state = d.state := by rw [hd.rest]
  have hmessage : d'.message = d.message := by rw [hd.rest]
  have hsensitive : d'.sensitive = d.sensitive := by rw [hd.rest]
  have hkeys : d'.keys = d.keys := by rw [hd.rest]
  simp only [hstate, hmessage, hsensitive, hkeys]
  by_cases havail : d.state ≠ .available
  · rw [if_pos havail, if_pos havail]
    exact Binding.Alike.refl _
  · rw [if_neg havail, if_neg havail]
    obtain ⟨hv,hv'⟩ | ⟨v,v',hv,hv',hsame⟩ := rel_cases (lookup_alike hd key)
    · rw [hv, hv']
      exact Binding.Alike.refl _
    · rw [hv, hv']
      exact ⟨rfl,rfl,hsame⟩

theorem resolveExplicit_alike (h : SourcesAlike sources sources')
    (hb : BindingsAlike bindings bindings') (pod : Pod Quantity) (container : PodContainer Quantity)
    (env : EnvVar Quantity) (node : NodeData Quantity) :
    (resolveExplicit lib pod container env bindings sources node).Alike
      (resolveExplicit lib pod container env bindings' sources' node) := by
  unfold resolveExplicit
  split
  · exact resolveDirect_alike hb _ _
  · exact resolveKeyRef_alike h _ _ _ _ _
  · exact resolveKeyRef_alike h _ _ _ _ _
  all_goals exact Binding.Alike.refl _

end Steps

section Bindings

variable {Quantity : Type} {lib : Lib Quantity} {choices choices' : Choices}
variable {sources sources' : Sources} {b b' : Bound}

theorem shadow_alike (h : b.Alike b') (name : String) : (b.shadow name).Alike (b'.shadow name) := by
  unfold Bound.shadow
  obtain ⟨hp,hp'⟩ | ⟨p,p',hp,hp',hrow,-,-⟩ := rel_cases (h.bindings name)
  · rw [hp, hp']
    exact h
  · simp only [hp, hp', h.shadowed, hrow]
    exact ⟨h.bindings,rfl⟩

theorem bind_alike (h : b.Alike b') (name : String) {x x' : Binding} (hx : x.Alike x') :
    (b.bind name x).Alike (b'.bind name x') := by
  constructor
  · intro n
    by_cases hn : n = name
    · rw [hn, Bound.bind, Bound.bind, AList.lookup_insert, AList.lookup_insert]
      exact .some hx
    · rw [Bound.bind, Bound.bind, AList.lookup_insert_ne hn, AList.lookup_insert_ne hn]
      exact h.bindings n
  · exact h.shadowed

theorem bindKey_alike (h : b.Alike b') {d d' : SourceData} (hd : d.Alike d')
    (namePrefix kind : String) (optional : Bool) (key : String) :
    (bindKey lib namePrefix kind optional d b key).Alike
      (bindKey lib namePrefix kind optional d' b' key) := by
  unfold bindKey
  have hname : d'.name = d.name := by rw [hd.rest]
  have hsensitive : d'.sensitive = d.sensitive := by rw [hd.rest]
  simp only [hname, hsensitive]
  by_cases hvar : lib.isEnvVarName (namePrefix ++ key)
  · rw [if_pos hvar, if_pos hvar]
    apply bind_alike (shadow_alike h _)
    obtain ⟨hv,hv'⟩ | ⟨v,v',hv,hv',hsame⟩ := rel_cases (lookup_alike hd key)
    · rw [hv, hv']
      exact Binding.Alike.refl _
    · rw [hv, hv']
      exact ⟨rfl,rfl,hsame⟩
  · rw [if_neg hvar, if_neg hvar]
    exact h

theorem sourceKeys_eq {d d' : SourceData} (hd : d.Alike d') :
    sourceKeys choices d = sourceKeys choices' d' := by
  have hkeys : d'.keys = d.keys := by rw [hd.rest]
  unfold sourceKeys
  rw [hkeys]
  split_ifs
  · have hp := choices.range_perm d.values.keys
    have hp' := choices'.range_perm d'.values.keys
    apply Names.sorted_eq (hp.nodup_iff.mpr d.values.keys_nodup)
      (hp'.nodup_iff.mpr d'.values.keys_nodup)
    intro k
    rw [hp.mem_iff, hp'.mem_iff, ← AList.mem_keys, ← AList.mem_keys]
    exact hd.keys k
  · rfl

theorem placeholder_eq {d d' : SourceData} (hd : d.Alike d') (namePrefix kind : String)
    (optional : Bool) : placeholder namePrefix kind optional d =
      placeholder namePrefix kind optional d' := by
  rw [hd.rest]
  rfl

/-- One step of a fold keeps what two states have in common. -/
theorem foldl_alike {α σ : Type*} {r : σ → σ → Prop} {f g : σ → α → σ} {l : List α} {s s' : σ}
    (h : r s s') (step : ∀ a s s', r s s' → r (f s a) (g s' a)) : r (l.foldl f s) (l.foldl g s') := by
  induction l generalizing s s' with
  | nil => exact h
  | cons a l ih => exact ih (step a s s' h)

theorem bindFrom_alike (hs : SourcesAlike sources sources') (h : b.Alike b')
    (fromSource : EnvFromSource) :
    (bindFrom lib choices sources b fromSource).Alike
      (bindFrom lib choices' sources' b' fromSource) := by
  unfold bindFrom
  generalize envFromIdentity fromSource = id
  obtain ⟨kind,name,optional⟩ := id
  by_cases hname : name = ""
  · simpa only [if_pos hname] using h
  · simp only [if_neg hname]
    have hd := source_alike hs kind name
      { kind := kind, name := name, state := .missing, optional := optional }
    generalize (sourceOf sources kind name).getD _ = d at hd
    generalize (sourceOf sources' kind name).getD _ = d' at hd
    have hstate : d'.state = d.state := by rw [hd.rest]
    have hkeys : sourceKeys choices d = sourceKeys choices' d' := sourceKeys_eq hd
    rw [hstate, ← placeholder_eq hd, ← hkeys]
    by_cases havail : d.state ≠ .available
    · rw [if_pos havail, if_pos havail]
      exact bind_alike h _ (Binding.Alike.refl _)
    · rw [if_neg havail, if_neg havail]
      exact foldl_alike h fun key _ _ h => bindKey_alike h hd _ _ _ key

theorem bindEnv_alike (hs : SourcesAlike sources sources') (h : b.Alike b') (pod : Pod Quantity)
    (container : PodContainer Quantity) (node : NodeData Quantity) (env : EnvVar Quantity) :
    (bindEnv lib pod container sources node b env).Alike
      (bindEnv lib pod container sources' node b' env) :=
  bind_alike (shadow_alike h env.name) env.name
    (resolveExplicit_alike hs h.bindings pod container env node)

theorem resolveBindings_alike (hs : SourcesAlike sources sources') (pod : Pod Quantity)
    (container : PodContainer Quantity) (node : NodeData Quantity) :
    (resolveBindings lib choices pod container sources node).Alike
      (resolveBindings lib choices' pod container sources' node) := by
  unfold resolveBindings
  have hempty : Bound.Alike {} {} := ⟨fun _ => .none,rfl⟩
  have hfrom : (container.envFrom.foldl (bindFrom lib choices sources) {}).Alike
      (container.envFrom.foldl (bindFrom lib choices' sources') {}) :=
    foldl_alike hempty fun fromSource _ _ h => bindFrom_alike hs h fromSource
  exact foldl_alike hfrom fun env _ _ h => bindEnv_alike hs h pod container node env

end Bindings

section Names

variable {Quantity : Type} {lib : Lib Quantity} {choices : Choices} {sources : Sources} {b : Bound}

/-- Every binding stands under the name of its row. -/
def Bound.Named (b : Bound) : Prop :=
  ∀ name x, b.bindings.lookup name = some x → x.row.name = name

@[simp] theorem shadow_bindings (name : String) : (b.shadow name).bindings = b.bindings := by
  unfold Bound.shadow
  split <;> rfl

theorem bind_named (h : b.Named) {name : String} {x : Binding} (hx : x.row.name = name) :
    (b.bind name x).Named := by
  intro n y hy
  by_cases hn : n = name
  · rw [hn, Bound.bind, AList.lookup_insert] at hy
    rw [← Option.some.inj hy, hx, hn]
  · rw [Bound.bind, AList.lookup_insert_ne hn] at hy
    exact h n y hy

theorem shadow_named (h : b.Named) (name : String) : (b.shadow name).Named := by
  intro n x hx
  rw [shadow_bindings] at hx
  exact h n x hx

theorem resolveKeyRef_name (envName kind name key : String) (optional : Bool) :
    (resolveKeyRef envName kind name key optional sources).row.name = envName := by
  unfold resolveKeyRef
  generalize (sourceOf sources kind name).getD _ = d
  simp only
  split
  · rfl
  · split
    · rfl
    · split <;> rfl

theorem resourceValue_name (name : String) (ref : ResourceFieldSelector Quantity)
    (container : PodContainer Quantity) : (resourceValue lib name ref container).row.name = name := by
  unfold resourceValue
  split <;> rfl

theorem resolveResourceRef_name (pod : Pod Quantity) (container : PodContainer Quantity)
    (node : NodeData Quantity) (name : String) (ref : ResourceFieldSelector Quantity) :
    (resolveResourceRef lib pod container node name ref).row.name = name := by
  unfold resolveResourceRef
  split
  · rfl
  · split
    · exact resourceValue_name _ _ _
    · split_ifs
      · rfl
      · split
        · rfl
        · exact resourceValue_name _ _ _

theorem resolveExplicit_name (pod : Pod Quantity) (container : PodContainer Quantity)
    (env : EnvVar Quantity) (bindings : Bindings) (node : NodeData Quantity) :
    (resolveExplicit lib pod container env bindings sources node).row.name = env.name := by
  unfold resolveExplicit
  split
  · rfl
  · exact resolveKeyRef_name _ _ _ _ _
  · exact resolveKeyRef_name _ _ _ _ _
  · unfold resolveFieldRef
    split <;> rfl
  · exact resolveResourceRef_name _ _ _ _ _
  · rfl

theorem bindKey_named (h : b.Named) (namePrefix kind : String) (optional : Bool) (d : SourceData)
    (key : String) : (bindKey lib namePrefix kind optional d b key).Named := by
  unfold bindKey
  by_cases hvar : lib.isEnvVarName (namePrefix ++ key)
  · simp only [if_pos hvar]
    exact bind_named (shadow_named h _) rfl
  · simp only [if_neg hvar]
    exact h

theorem bindFrom_named (h : b.Named) (fromSource : EnvFromSource) :
    (bindFrom lib choices sources b fromSource).Named := by
  unfold bindFrom
  generalize envFromIdentity fromSource = id
  obtain ⟨kind,name,optional⟩ := id
  simp only
  split_ifs
  · exact h
  · exact bind_named h rfl
  · apply List.foldlRecOn _ _ h
    intro b h key _
    exact bindKey_named h _ _ _ _ key

theorem resolveBindings_named (pod : Pod Quantity) (container : PodContainer Quantity)
    (node : NodeData Quantity) :
    (resolveBindings lib choices pod container sources node).Named := by
  unfold resolveBindings
  apply List.foldlRecOn
  · apply List.foldlRecOn
    · intro name x hx
      rw [AList.lookup_empty] at hx
      cases hx
    · intro b h fromSource _
      exact bindFrom_named h fromSource
  · intro b h env _
    exact bind_named (shadow_named h _) (resolveExplicit_name pod container env _ node)

end Names

section Rows

variable {Quantity : Type} {lib : Lib Quantity} {choices choices' : Choices}
variable {sources sources' : Sources} {b b' : Bound}

theorem missingRow_name (pod : Pod Quantity) (containerName : String) (row : Row) :
    (missingRow pod containerName row).name = row.name := by
  unfold missingRow
  split_ifs <;> rfl

theorem missingRow_sensitive (pod : Pod Quantity) (containerName : String) (row : Row) :
    (missingRow pod containerName row).sensitive = row.sensitive := by
  unfold missingRow
  split_ifs <;> rfl

theorem resolveRow_name (pod : Pod Quantity) (containerName : String) (b : Bound) (name : String)
    (x : Binding) : (resolveRow pod containerName b name x).name = x.row.name := by
  unfold resolveRow
  simp only
  split
  · exact missingRow_name _ _ _
  · exact missingRow_name _ _ _

theorem resolveRow_alike (h : b.Alike b') {x x' : Binding} (hx : x.Alike x') (pod : Pod Quantity)
    (containerName name : String) :
    resolveRow pod containerName b name x = resolveRow pod containerName b' name x' := by
  unfold resolveRow
  simp only [← hx.row, ← h.shadowed, missingRow_sensitive]
  split
  · rfl
  · next hs => rw [hx.value (Bool.eq_false_iff.mpr hs)]

def rowOf (pod : Pod Quantity) (containerName : String) (b : Bound) (name : String) : Option Row :=
  (b.bindings.lookup name).map (resolveRow pod containerName b name)

theorem rowOf_alike (h : b.Alike b') (pod : Pod Quantity) (containerName : String) :
    rowOf pod containerName b = rowOf pod containerName b' := by
  ext1 name
  unfold rowOf
  obtain ⟨hx,hx'⟩ | ⟨x,x',hx,hx',hsame⟩ := rel_cases (h.bindings name)
  · rw [hx, hx']
    rfl
  · rw [hx, hx', Option.map_some, Option.map_some, resolveRow_alike h hsame]

theorem rowOf_name (h : b.Named) {pod : Pod Quantity} {containerName name : String} {row : Row}
    (hrow : rowOf pod containerName b name = some row) : row.name = name := by
  obtain ⟨x,hx,rfl⟩ := Option.map_eq_some_iff.mp hrow
  rw [resolveRow_name]
  exact h name x hx

theorem keys_perm (h : b.Alike b') : b.bindings.keys.Perm b'.bindings.keys := by
  apply (List.perm_ext_iff_of_nodup b.bindings.keys_nodup b'.bindings.keys_nodup).mpr
  intro name
  rw [← AList.mem_keys, ← AList.mem_keys, ← AList.lookup_isSome, ← AList.lookup_isSome]
  obtain ⟨hx,hx'⟩ | ⟨x,x',hx,hx',-⟩ := rel_cases (h.bindings name) <;> simp [hx, hx']

theorem resolveContainer_eq (hs : SourcesAlike sources sources') (pod : Pod Quantity)
    (container : PodContainer Quantity) (role : String) (node : NodeData Quantity) :
    resolveContainer lib choices pod container role sources node =
      resolveContainer lib choices' pod container role sources' node := by
  have h : (resolveBindings lib choices pod container sources node).Alike
      (resolveBindings lib choices' pod container sources' node) :=
    resolveBindings_alike hs pod container node
  have hnamed : (resolveBindings lib choices pod container sources node).Named :=
    resolveBindings_named pod container node
  unfold resolveContainer
  generalize resolveBindings lib choices pod container sources node = b at h hnamed
  generalize resolveBindings lib choices' pod container sources' node = b' at h
  have hperm : (choices.range b.bindings.keys).Perm (choices'.range b'.bindings.keys) :=
    (choices.range_perm _).trans ((keys_perm h).trans (choices'.range_perm _).symm)
  change Container.mk _ _ (choices.sortRows.run
    ((choices.range b.bindings.keys).filterMap (rowOf pod container.name b))) = Container.mk _ _
      (choices'.sortRows.run
        ((choices'.range b'.bindings.keys).filterMap (rowOf pod container.name b')))
  rw [← rowOf_alike h]
  congr 1
  apply SortFunc.run_eq _ _ (hperm.filterMap _)
  intro r hr s hs hcmp
  obtain ⟨n,-,hrn⟩ := List.mem_filterMap.mp hr
  obtain ⟨m,-,hsm⟩ := List.mem_filterMap.mp hs
  have hname : r.name = s.name := Std.LawfulEqCmp.eq_of_compare hcmp
  rw [rowOf_name hnamed hrn, rowOf_name hnamed hsm] at hname
  rw [hname, hsm] at hrn
  exact (Option.some.inj hrn).symm

end Rows

/-- What a sensitive source holds under its keys does not show. -/
theorem resolvePod_secret {Quantity : Type} (lib : Lib Quantity) (choices choices' : Choices)
    (pod : Option (Pod Quantity)) (sources sources' : Sources) (node : NodeData Quantity)
    (h : SourcesAlike sources sources') :
    resolvePod lib choices pod sources node = resolvePod lib choices' pod sources' node := by
  cases pod with
  | none => rfl
  | some pod =>
    exact congrArg₂ (·++·)
      (List.map_congr_left fun c _ => resolveContainer_eq h pod c (roleOf c) node)
      (List.map_congr_left fun c _ => resolveContainer_eq h pod c "container" node)

section Examples

def plainLib : Lib ℕ where
  isEnvVarName := fun _ => true
  extractFieldPath := fun _ _ => .error "unsupported"
  extractResource := fun _ _ => .error "unsupported"
  quote := fun s => s

def plainChoices : Choices where
  range := id
  range_perm := fun _ => List.Perm.refl _
  sortRows := SortFunc.stable _

def passwordSources (password : String) : Sources := fun id =>
  if id = { kind := "Secret", name := "db" } then some {
    kind := "Secret"
    name := "db"
    state := .available
    values := AList.singleton "PASSWORD" password
    sensitive := true }
  else none

def urlPod : Pod ℕ where
  containers := [{
    name := "app"
    envFrom := [{ secretRef := some { name := "db" } }]
    env := [{ name := "URL", value := "pg:$(PASSWORD)" }] }]

theorem passwordSources_alike (p q : String) :
    SourcesAlike (passwordSources p) (passwordSources q) := by
  intro id
  by_cases hid : id = { kind := "Secret", name := "db" }
  · simp only [passwordSources, if_pos hid]
    exact .some ⟨rfl,fun _ => Iff.rfl,fun hs => nomatch hs⟩
  · simp only [passwordSources, if_neg hid]
    exact .none

theorem resolvePod_secret_url :
    resolvePod plainLib plainChoices (some urlPod) (passwordSources "old") {} =
      resolvePod plainLib plainChoices (some urlPod) (passwordSources "new") {} :=
  resolvePod_secret plainLib plainChoices plainChoices (some urlPod) (passwordSources "old")
    (passwordSources "new") {} (passwordSources_alike "old" "new")

end Examples

end Radar.EnvResolve
