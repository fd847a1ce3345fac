import GraphClient.Proofs.Reading.Reordering
import GraphClient.Proofs.Store.Publication

/-!
# The order of keys never matters to a store

Take two runs of one operation on a store, with data and variables that differ in the order of keys.
Both are refused, or both are taken apart into the same records but for that order; merging either
reports the same changes and leaves the same records, again but for that order; and what is read
before and after is equal (`outcomes_reordered`). This needs a resolver that does not see the order of
keys either; identifying objects by type and `id` or by path does not.
-/

namespace GraphClient

namespace KeyResolver

variable {resolver : KeyResolver}

theorem ignoresOrder_of_eq (h : resolver = .byTypeAndId ∨ resolver = .byPath) :
    resolver.IgnoresOrder := by
  rcases h with rfl | rfl
  · exact ignoresOrder_byTypeAndId
  · exact ignoresOrder_byPath

theorem neverRedirects_of_eq (h : resolver = .byTypeAndId ∨ resolver = .byPath) :
    resolver.NeverRedirects := by
  rcases h with rfl | rfl
  · exact neverRedirects_byTypeAndId
  · exact neverRedirects_byPath

end KeyResolver

namespace Store

variable {β : Type} {s : Store MemoryContents β} {operation : Operation} {vars' : Json.Object}

/-- Stores whose records differ in the order of keys read an operation alike. -/
theorem readOperation_reordered {s' : Store MemoryContents β}
    (h : s.contents.table.Reordered s'.contents.table) (hsame : s.resolver = s'.resolver)
    (hresolver : s'.resolver.NeverRedirects)
    (hvars : (Json.object operation.vars).Reordered (.object vars')) :
    SameOutcome ReadResult.Reordered (s.readOperation operation)
      (s'.readOperation { operation with vars := vars' }) := by
  rw [readOperation, readOperation, hsame]
  exact readData_reordered h.get? hresolver hvars operation.rootKey operation.selections

/-- Whatever the order of keys in the data and in the variables is, a store takes the data apart,
merges the records and reads the operation in the same way. -/
theorem outcomes_reordered (hs : s.contents.table.WellFormed)
    (hresolver : s.resolver = .byTypeAndId ∨ s.resolver = .byPath)
    (hvars : (Json.object operation.vars).Reordered (.object vars')) {data data' : Json.Object}
    (hdata : (Json.object data).Reordered (.object data')) :
    SameOutcome
      (fun normalized normalized' => normalized.Reordered normalized' ∧
        ∃ changed after after',
          s.merge (Assoc.values normalized.records) .none = (.ok changed, after) ∧
          s.merge (Assoc.values normalized'.records) .none = (.ok changed, after') ∧
          after.contents.table.Reordered after'.contents.table ∧
          SameOutcome ReadResult.Reordered (after.readOperation operation)
            (after'.readOperation { operation with vars := vars' }))
      (s.normalize operation data) (s.normalize { operation with vars := vars' } data') ∧
    SameOutcome ReadResult.Reordered (s.readOperation operation)
      (s.readOperation { operation with vars := vars' }) := by
  have hredirects := KeyResolver.neverRedirects_of_eq hresolver
  refine ⟨?_, readOperation_reordered hs.reordered rfl hredirects hvars⟩
  refine (normalize_reordered (KeyResolver.ignoresOrder_of_eq hresolver) hvars hdata
    operation.rootKey operation.selections).imp fun normalized normalized' h => ⟨h, ?_⟩
  obtain ⟨hmerged, hchanged⟩ := hs.reordered.mergeAll h.records.values
  have hmerge := s.merge_values_eq normalized.records
  rw [hchanged] at hmerge
  refine ⟨_, _, _, hmerge, s.merge_values_eq normalized'.records, hmerged, ?_⟩
  exact readOperation_reordered hmerged rfl hredirects hvars

section Reviews

/-- Asks for the reviews that a filter admits, each with its author. -/
private def filteredQuery : Operation :=
  { name := "Reviews", document := "", id := "reviews"
    vars := [("filter", .object [("stars", .ofInt 4), ("language", .string "en")]),
      ("page", .ofInt 1)]
    selections := [
      .field { responseName := "reviews", name := "reviews", arguments :=
          [("page", .ofVariable "page"), ("filter", .ofVariable "filter")] }
        (.list (.object [
          .field { responseName := "__typename", name := "__typename" } .leaf,
          .field { responseName := "id", name := "id" } .leaf,
          .field { responseName := "place", name := "place" } .leaf]))] }

private def filteredVars : Json.Object :=
  [("page", .ofInt 1), ("filter", .object [("language", .string "en"), ("stars", .ofInt 4)])]

private def review : Json.Object :=
  [("__typename", .string "Review"), ("id", .ofInt 7),
    ("place", .object [("x", .ofInt 2), ("y", .ofInt 3)])]

private def reviewTurned : Json.Object :=
  [("place", .object [("y", .ofInt 3), ("x", .ofInt 2)]), ("id", .ofInt 7),
    ("__typename", .string "Review")]

private def reviewStore : Store MemoryContents Unit :=
  { resolver := .byTypeAndId, contents := .empty }

private theorem filter_reordered :
    (Json.object filteredQuery.vars).Reordered (.object filteredVars) := by
  have hfilter : (Json.object [("stars", .ofInt 4), ("language", .string "en")]).Reordered
      (.object [("language", .string "en"), ("stars", .ofInt 4)]) :=
    .of_perm ⟨by decide, trivial, trivial, trivial⟩ (List.Perm.swap _ _ _)
  have hempty : (Json.object []).Reordered (.object []) := .refl ⟨List.nodup_nil, trivial⟩
  have hpage : (Json.ofInt 1).Reordered (.ofInt 1) := .scalar rfl
  refine ((hempty.insert "filter" hfilter).insert "page" hpage).trans ?_
  exact .of_perm ⟨by decide, ⟨by decide, trivial, trivial, trivial⟩, trivial, trivial⟩
    (List.Perm.swap _ _ _)

private theorem review_reordered :
    (Json.object [("reviews", .array [.object review])]).Reordered
      (.object [("reviews", .array [.object reviewTurned])]) := by
  have hplace : (Json.object [("x", .ofInt 2), ("y", .ofInt 3)]).Reordered
      (.object [("y", .ofInt 3), ("x", .ofInt 2)]) :=
    .of_perm ⟨by decide, trivial, trivial, trivial⟩ (List.Perm.swap _ _ _)
  have hid : (Json.object [("__typename", .string "Review"), ("id", .ofInt 7)]).Reordered
      (.object [("__typename", .string "Review"), ("id", .ofInt 7)]) :=
    .refl ⟨by decide, trivial, trivial, trivial⟩
  have hreview : (Json.object review).Reordered (.object reviewTurned) := by
    refine (hid.insert "place" hplace).trans ?_
    exact .of_perm ⟨by decide, trivial, trivial, ⟨by decide, trivial, trivial, trivial⟩, trivial⟩
      (List.reverse_perm _).symm
  have hempty : (Json.object []).Reordered (.object []) := .refl ⟨List.nodup_nil, trivial⟩
  exact hempty.insert "reviews" (Json.Reordered.array_iff.mpr (.cons hreview .nil))

theorem outcomes_reordered_filteredQuery :
    ∃ normalized normalized',
      reviewStore.normalize filteredQuery [("reviews", .array [.object review])] =
          .ok normalized ∧
        reviewStore.normalize { filteredQuery with vars := filteredVars }
          [("reviews", .array [.object reviewTurned])] = .ok normalized' ∧
        normalized.Reordered normalized' ∧
        Assoc.keys normalized.records = [.queryRoot, ⟨"Review:7"⟩] := by
  obtain ⟨houtcomes, -⟩ := outcomes_reordered (s := reviewStore) RecordTable.wellFormed_nil (.inl rfl)
    filter_reordered review_reordered
  have hkeys : (reviewStore.normalize filteredQuery [("reviews", .array [.object review])]).toOption.map
      (fun n => Assoc.keys n.records) = some [.queryRoot, ⟨"Review:7"⟩] := by decide
  generalize reviewStore.normalize filteredQuery [("reviews", .array [.object review])] = x at *
  generalize reviewStore.normalize { filteredQuery with vars := filteredVars } _ = y at *
  cases houtcomes with
  | error => cases hkeys
  | ok h => exact ⟨_, _, rfl, rfl, h.1, Option.some.inj hkeys⟩

end Reviews

end Store

end GraphClient
