import GraphClient.Proofs.Json.Parsed
import GraphClient.Proofs.Pipeline.Conformance
import GraphClient.Proofs.Reading.Settled
import GraphClient.Proofs.Store.RoundTrip

/-!
# What a response from the network depends on

The parse stage makes a response depend on every field that it writes. When its records are merged
and the operation is then read from the contents, the read depends on every field that it looks up.
These are the fields that were written, but for those at which the response settles nothing
(`Reading.LookedUpUnsettled`): of such a field the response from the network knows nothing, while the
response from the contents depends on it.
-/

namespace GraphClient

open Normalization (Reaches Visit Writes)

namespace Pipeline.ParseStage

/-- Data that is there was read from the body and taken apart. -/
theorem parseHttp_eq_ok {resolver : KeyResolver} {operation : Operation} {http : Http.Response}
    {response : Response Json} {records : List Record}
    (h : parseHttp resolver operation http = .ok (response, records)) {data : Json.Object}
    (hdata : response.data = some (.object data)) :
    (Json.object data).WellFormed ∧ ∃ normalized,
      normalize resolver operation.vars operation.rootKey operation.selections data =
        .ok normalized ∧
      response.dependentKeys = normalized.dependentKeys ∧
      records = Assoc.values normalized.records := by
  obtain ⟨parsed, hbody, ⟨hnone, rfl, -⟩ | ⟨found, normalized, hfound, hnormalized, rfl, rfl⟩⟩ :=
    (parseHttp_eq_ok_iff (isSuccess_of_parseHttp h)).mp h
  · exact absurd hdata (hnone data)
  · cases hfound.symm.trans hdata
    exact ⟨Response.wellFormed_ofBytes hbody hfound, normalized, hnormalized, rfl, rfl⟩

end Pipeline.ParseStage

namespace Store

variable {β : Type}

/-- After the records of a response are merged, a read of its operation depends on what the response
depends on and on what is looked up at fields that the response does not settle. -/
theorem dependentKeys_parseHttp {s : Store MemoryContents β} (hs : s.contents.table.WellFormed)
    (hresolver : s.resolver.NeverRedirects) {operation : Operation} {http : Http.Response}
    {response : Response Json} {records : List Record}
    (hparse : Pipeline.ParseStage.parseHttp s.resolver operation http = .ok (response, records))
    {data : Json.Object} (hdata : response.data = some (.object data)) :
    ∃ changed after, s.merge records .none = (.ok changed, after) ∧
      ∀ result, after.readOperation operation = .ok result → ∀ k ∈ result.dependentKeys,
        k ∈ response.dependentKeys ∨
          Reading.LookedUpUnsettled ⟨s.resolver, operation.vars⟩ after.load?
            ⟨operation.rootKey, operation.selections, data⟩ k := by
  obtain ⟨hwell, normalized, hnormalize, hkeys, rfl⟩ :=
    Pipeline.ParseStage.parseHttp_eq_ok hparse hdata
  obtain ⟨taken, htaken, hrecords, htakenKeys⟩ := normalize_eq_ok hnormalize
  have hpieces := Normalization.wellFormed_pieces htaken hwell
  obtain ⟨changed, after, hmerge, hstored⟩ :=
    exists_stored_merge hs (wellFormed_normalize hnormalize hwell)
  refine ⟨changed, after, hmerge, fun result hread => ?_⟩
  rw [hrecords] at hstored
  have hwrite : s.write operation data = (.ok changed, after) := by
    rw [write, Store.normalize, hnormalize]
    exact hmerge
  have hafter : after.contents.table.WellFormed := by
    have h := wellFormed_write hs operation hwell
    rwa [hwrite] at h
  have hsame : after.resolver = s.resolver := by
    rw [merge_values_eq] at hmerge
    cases hmerge
    rfl
  have hholds : Reading.HoldsSettled ⟨s.resolver, operation.vars⟩ after.load?
      ⟨operation.rootKey, operation.selections, data⟩ := by
    intro v f written hv hf hsettled hwrites
    obtain ⟨stored, hfield, hequal⟩ := exists_fieldAt_of_stored htaken hpieces hstored hv hwrites
      fun w value hw hkey => hsettled.agreed w hw hkey written value hwrites
    obtain ⟨r, hr, hstoredField⟩ := Option.bind_eq_some_iff.mp hfield
    exact ⟨r, hr, hafter.keyed v.key r hr, stored, hstoredField, hequal⟩
  rw [hkeys, htakenKeys]
  rw [readOperation, hsame] at hread
  exact readData_covered hresolver hholds htaken hread

section Partial

private def leafOf (name : String) : Selection :=
  .field { responseName := name, name := name, nullable := true } .leaf

/-- Asks for a friend by two names, and for the type of a planet by an alias. -/
private def partialQuery : Operation :=
  { name := "Partial", document := "", id := "partial", selections := [
    .field { responseName := "left", name := "friend" } (.object [leafOf "height"]),
    .field { responseName := "right", name := "friend" } (.object [leafOf "name"]),
    .field { responseName := "planet", name := "planet" } (.object [
      .field { responseName := "kind", name := "__typename" } .leaf,
      .fragment ["Planet"] [leafOf "climate"]])] }

/-- The one friend is unknown, the other has no name. -/
private def partialReply : Http.Response :=
  ⟨200, ("\x7b\"data\":\x7b\"left\":null,\"right\":\x7b\x7d," ++
    "\"planet\":\x7b\"kind\":\"Planet\"\x7d\x7d\x7d").toUTF8⟩

private def unusedStore : Store MemoryContents Unit :=
  { resolver := .byTypeAndId, contents := .empty }

/-- Whether the response has an object as data, what it depends on, and what a read of the query
depends on after the response is merged. -/
private def partialKeys : Option (Bool × List String × List String) :=
  match Pipeline.ParseStage.parseHttp .byTypeAndId partialQuery partialReply with
  | .error _ => none
  | .ok (response, records) =>
    match (unusedStore.merge records .none).2.readOperation partialQuery with
    | .error _ => none
    | .ok result => some ((response.data.bind Json.asObject?).isSome,
        response.dependentKeys.toList, result.dependentKeys.toList)

private theorem exists_partial :
    ∃ response records data result,
      Pipeline.ParseStage.parseHttp .byTypeAndId partialQuery partialReply =
        .ok (response, records) ∧
      response.data = some (.object data) ∧
      (unusedStore.merge records .none).2.readOperation partialQuery = .ok result ∧
      response.dependentKeys.toList =
        ["QUERY_ROOT.friend", "QUERY_ROOT.planet", "QUERY_ROOT.planet.__typename"] ∧
      result.dependentKeys.toList = ["QUERY_ROOT.friend", "QUERY_ROOT.friend.height",
        "QUERY_ROOT.friend.name", "QUERY_ROOT.planet", "QUERY_ROOT.planet.__typename",
        "QUERY_ROOT.planet.climate"] := by
  have hkeys : partialKeys = some (true,
      ["QUERY_ROOT.friend", "QUERY_ROOT.planet", "QUERY_ROOT.planet.__typename"],
      ["QUERY_ROOT.friend", "QUERY_ROOT.friend.height", "QUERY_ROOT.friend.name",
        "QUERY_ROOT.planet", "QUERY_ROOT.planet.__typename", "QUERY_ROOT.planet.climate"]) := by
    decide +kernel
  unfold partialKeys at hkeys
  split at hkeys
  · cases hkeys
  · next response records hparse =>
    split at hkeys
    · cases hkeys
    · next result hread =>
      simp only [Option.some.injEq, Prod.mk.injEq] at hkeys
      obtain ⟨hobject, hresponse, hresult⟩ := hkeys
      obtain ⟨data, hdata⟩ := Option.isSome_iff_exists.mp hobject
      obtain ⟨value, hvalue, hmembers⟩ := Option.bind_eq_some_iff.mp hdata
      cases value with
      | object members =>
        exact ⟨response, records, members, result, hparse, hvalue, hread, hresponse, hresult⟩
      | _ => cases hmembers

/-- A response that lacks a member, has two values for one field and names a type by an alias. -/
theorem dependentKeys_parseHttp_partialQuery :
    ∃ response records data changed after result,
      Pipeline.ParseStage.parseHttp .byTypeAndId partialQuery partialReply =
        .ok (response, records) ∧
      response.data = some (.object data) ∧
      unusedStore.merge records .none = (.ok changed, after) ∧
      after.readOperation partialQuery = .ok result ∧
      ∀ k ∈ result.dependentKeys, k ∈ response.dependentKeys ∨
        Reading.LookedUpUnsettled ⟨.byTypeAndId, []⟩ after.load?
          ⟨.queryRoot, partialQuery.selections, data⟩ k := by
  obtain ⟨response, records, data, result, hparse, hdata, hread, -⟩ := exists_partial
  obtain ⟨changed, after, hmerge, hkeys⟩ := dependentKeys_parseHttp (s := unusedStore)
    RecordTable.wellFormed_nil KeyResolver.neverRedirects_byTypeAndId hparse hdata
  rw [hmerge] at hread
  exact ⟨response, records, data, changed, after, result, hparse, hdata, hmerge, hread,
    hkeys result hread⟩

/-- Of none of the three fields the response knows, but the read depends on them. -/
theorem exists_dependentKeys_not_mem :
    ∃ response records result,
      Pipeline.ParseStage.parseHttp .byTypeAndId partialQuery partialReply =
        .ok (response, records) ∧
      (unusedStore.merge records .none).2.readOperation partialQuery = .ok result ∧
      ∀ k ∈ ["QUERY_ROOT.friend.height", "QUERY_ROOT.friend.name", "QUERY_ROOT.planet.climate"],
        k ∈ result.dependentKeys ∧ k ∉ response.dependentKeys := by
  obtain ⟨response, records, data, result, hparse, -, hread, hresponse, hresult⟩ := exists_partial
  refine ⟨response, records, result, hparse, hread, ?_⟩
  simp [KeySet.mem_def, hresponse, hresult]

end Partial

end Store

end GraphClient
