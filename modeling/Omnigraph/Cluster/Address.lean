import Omnigraph.Lib.Prefixed

/-!
# Addresses of cluster resources

A resource is named by a text: its kind, a dot, and its ids. The kind is read back from the text.
-/

namespace Omnigraph.Cluster

open List Prefixed

open Prefixed (strip splitOnce)

def graphAddress (graphId : String) : String := "graph." ++ graphId

def schemaAddress (graphId : String) : String := "schema." ++ graphId

/-- What the addresses of the queries of a graph begin with. -/
def queryPrefix (graphId : String) : String := "query." ++ graphId ++ "."

def queryAddress (graphId queryName : String) : String := queryPrefix graphId ++ queryName

def policyAddress (policyName : String) : String := "policy." ++ policyName

def embeddingProviderAddress (providerName : String) : String :=
  "provider.embedding." ++ providerName

inductive ResourceKind
  | graph (graphId : String)
  | schema (graphId : String)
  | query (graphId name : String)
  | policy (name : String)
  | embeddingProvider (name : String)
  | unknown
deriving DecidableEq

def resourceKind (address : String) : ResourceKind :=
  match strip "graph." address with
  | some graphId => .graph graphId
  | none => match strip "schema." address with
    | some graphId => .schema graphId
    | none => match strip "query." address with
      | some rest => match splitOnce '.' rest with
        | some (graphId, name) => .query graphId name
        | none => .unknown
      | none => match strip "policy." address with
        | some name => .policy name
        | none => match strip "provider.embedding." address with
          | some name => .embeddingProvider name
          | none => .unknown

/-! ### Reading the kind back -/

section Kind

variable {address graphId name : String}

lemma query_apart : Prefixed.Apart "query." "graph." ∧ Prefixed.Apart "query." "schema." ∧
    Prefixed.Apart "query." "policy." ∧ Prefixed.Apart "query." "provider.embedding." := by
  decide +kernel

lemma kinds_apart : Prefixed.Apart "graph." "schema." ∧ Prefixed.Apart "graph." "query." ∧
    Prefixed.Apart "graph." "policy." ∧ Prefixed.Apart "graph." "provider.embedding." ∧
    Prefixed.Apart "schema." "query." ∧ Prefixed.Apart "schema." "policy." ∧
    Prefixed.Apart "schema." "provider.embedding." ∧
    Prefixed.Apart "policy." "provider.embedding." := by
  decide +kernel

@[simp] lemma resourceKind_graphAddress : resourceKind (graphAddress graphId) = .graph graphId := by
  simp only [resourceKind, graphAddress, strip_append]

@[simp] lemma resourceKind_schemaAddress :
    resourceKind (schemaAddress graphId) = .schema graphId := by
  obtain ⟨hgraph, -⟩ := kinds_apart
  simp only [resourceKind, schemaAddress, hgraph.strip_append, strip_append]

lemma queryAddress_eq : queryAddress graphId name =
    "query." ++ (graphId ++ (String.singleton '.' ++ name)) := by
  simp only [queryAddress, queryPrefix, String.append_assoc]
  rfl

lemma resourceKind_queryAddress (hdot : '.' ∉ graphId.toList) :
    resourceKind (queryAddress graphId name) = .query graphId name := by
  obtain ⟨-, hgraph, -, -, hschema, -⟩ := kinds_apart
  simp only [queryAddress_eq, resourceKind, hgraph.strip_append, hschema.strip_append,
    strip_append, splitOnce_append hdot]

@[simp] lemma resourceKind_policyAddress : resourceKind (policyAddress name) = .policy name := by
  obtain ⟨-, -, hgraph, -, -, hschema, -⟩ := kinds_apart
  simp only [resourceKind, policyAddress, hgraph.strip_append, hschema.strip_append,
    query_apart.2.2.1.strip_append, strip_append]

lemma strip_embeddingProviderAddress {p : String} (h : Prefixed.Apart p "provider.embedding.") :
    strip p (embeddingProviderAddress name) = none := h.strip_append name

@[simp] lemma resourceKind_embeddingProviderAddress :
    resourceKind (embeddingProviderAddress name) = .embeddingProvider name := by
  obtain ⟨-, -, -, hgraph, -, -, hschema, hpolicy⟩ := kinds_apart
  have hself : strip "provider.embedding." (embeddingProviderAddress name) = some name :=
    strip_append _ _
  simp only [resourceKind, strip_embeddingProviderAddress hgraph,
    strip_embeddingProviderAddress hschema, strip_embeddingProviderAddress query_apart.2.2.2,
    strip_embeddingProviderAddress hpolicy, hself]

/-- The kind was read from this address. -/
def ResourceKind.ReadFrom (address : String) : ResourceKind → Prop
  | .graph graphId => address = graphAddress graphId
  | .schema graphId => address = schemaAddress graphId
  | .query graphId name => '.' ∉ graphId.toList ∧ address = queryAddress graphId name
  | .policy name => address = policyAddress name
  | .embeddingProvider name => address = embeddingProviderAddress name
  | .unknown => True

lemma readFrom_resourceKind (address : String) : (resourceKind address).ReadFrom address := by
  unfold resourceKind
  split
  · next graphId h => exact strip_eq_some_iff.mp h
  split
  · next graphId h => exact strip_eq_some_iff.mp h
  split
  · next rest hquery =>
    split
    · next graphId name hsplit =>
      obtain ⟨hdot, hrest⟩ := splitOnce_eq_some_iff.mp hsplit
      refine ⟨hdot, ?_⟩
      rw [strip_eq_some_iff.mp hquery, hrest, queryAddress_eq]
    · trivial
  split
  · next name h => exact strip_eq_some_iff.mp h
  split
  · next name h => exact strip_eq_some_iff.mp h
  · trivial

lemma resourceKind_eq_graph_iff :
    resourceKind address = .graph graphId ↔ address = graphAddress graphId := by
  constructor
  · intro h
    have hread := readFrom_resourceKind address
    rwa [h] at hread
  · rintro rfl
    exact resourceKind_graphAddress

lemma resourceKind_eq_schema_iff :
    resourceKind address = .schema graphId ↔ address = schemaAddress graphId := by
  constructor
  · intro h
    have hread := readFrom_resourceKind address
    rwa [h] at hread
  · rintro rfl
    exact resourceKind_schemaAddress

lemma resourceKind_eq_policy_iff :
    resourceKind address = .policy name ↔ address = policyAddress name := by
  constructor
  · intro h
    have hread := readFrom_resourceKind address
    rwa [h] at hread
  · rintro rfl
    exact resourceKind_policyAddress

lemma resourceKind_eq_embeddingProvider_iff :
    resourceKind address = .embeddingProvider name ↔ address = embeddingProviderAddress name := by
  constructor
  · intro h
    have hread := readFrom_resourceKind address
    rwa [h] at hread
  · rintro rfl
    exact resourceKind_embeddingProviderAddress

end Kind

/-! ### Addresses of different kinds -/

section Apart

variable (graphId other name : String)

lemma schemaAddress_ne_graphAddress : schemaAddress graphId ≠ graphAddress other := by
  intro h
  simpa using congrArg resourceKind h

lemma embeddingProviderAddress_ne_graphAddress :
    embeddingProviderAddress name ≠ graphAddress other := by
  intro h
  simpa using congrArg resourceKind h

lemma query_ne (p rest : String) (h : Prefixed.Apart "query." p) :
    queryPrefix graphId ++ name ≠ p ++ rest := by
  rw [queryPrefix, String.append_assoc, String.append_assoc]
  exact h.append_ne _ _

lemma query_ne_graphAddress : queryPrefix graphId ++ name ≠ graphAddress other :=
  query_ne graphId name _ other query_apart.1

lemma query_ne_schemaAddress : queryPrefix graphId ++ name ≠ schemaAddress other :=
  query_ne graphId name _ other query_apart.2.1

lemma query_ne_policyAddress : queryPrefix graphId ++ name ≠ policyAddress other :=
  query_ne graphId name _ other query_apart.2.2.1

lemma query_ne_embeddingProviderAddress :
    queryPrefix graphId ++ name ≠ embeddingProviderAddress other :=
  query_ne graphId name _ other query_apart.2.2.2

end Apart

/-! ### The queries of a graph -/

lemma queryPrefix_apart {graphId other name rest : String} (hdot : '.' ∉ graphId.toList)
    (hname : '.' ∉ name.toList) (h : queryAddress graphId name = queryPrefix other ++ rest) :
    other = graphId ∧ rest = name := by
  have hrest : graphId ++ (String.singleton '.' ++ name) =
      other ++ (String.singleton '.' ++ rest) := by
    apply @append_inj "query."
    rw [← queryAddress_eq, h, ← queryAddress_eq]
    rfl
  have hchars : graphId.toList ++ '.' :: name.toList = other.toList ++ '.' :: rest.toList := by
    simpa using congrArg String.toList hrest
  have hother : '.' ∉ other.toList := by
    -- there is one dot on the left, and the one after the other id is on the right
    have hcount := congrArg (List.count '.') hchars
    rw [count_append, count_append, count_cons_self, count_cons_self,
      count_eq_zero.mpr hdot, count_eq_zero.mpr hname] at hcount
    exact count_eq_zero.mp (by omega)
  obtain ⟨hid, hname'⟩ := Separated.append_cons_inj hdot hother hchars
  exact ⟨(String.toList_inj.mp hid).symm, (String.toList_inj.mp hname').symm⟩

end Omnigraph.Cluster
