import GraphClient.Pipeline.ServerStage
import GraphClient.Proofs.Json.Texts

/-!
# What is sent of a document

The text that is sent for a document lacks its line breaks. A line break may be all that stands
between two names, and it ends a comment; there the text that is sent says something else than the
document. It keeps the names apart exactly if no two of them are parted by line breaks alone, and it
extends no comment exactly if every comment that a line break ends is followed by another one or by
nothing (`queryText_keeps`). Documents that are indented and have no comments are sent as they are
meant (`queryText_keeps_of_indented`).

A number sign begins no comment inside of a string, so comments are found by a scan of the text from
its start. Two strings that are parted by a line break alone may become one, too.
-/

namespace GraphClient.Document

/-- Whether a character may stand in a name. -/
def isNameChar (c : Char) : Bool := c.isAlphanum || c == '_'

/-- Where the scan of a document stands after a character. A block string is closed by three quotes,
unless a backslash stands before them. Any other string stands on one line, so it does not matter that
the scan goes on in it after a line break. -/
inductive Region where
  /-- Between the comments and strings. -/
  | code
  | comment
  /-- In a string, after the quote that opens it. -/
  | opened
  /-- After two quotes: an empty string, unless a third one opens a block string. -/
  | emptied
  | string
  /-- In a string, after a backslash. -/
  | escape
  /-- In a block string, after so many quotes in a row. -/
  | block (quotes : Nat)
  /-- In a block string, after a backslash and so many quotes. -/
  | masked (quotes : Nat)
deriving DecidableEq

namespace Region

def step : Region → Char → Region
  | comment, c => if c = '\n' ∨ c = '\r' then code else comment
  | opened, c => if c = '"' then emptied else if c = '\\' then escape else string
  | string, c => if c = '"' then code else if c = '\\' then escape else string
  | escape, _ => string
  | block quotes, c =>
    if c = '"' then if quotes = 2 then code else block (quotes + 1)
    else if c = '\\' then masked 0 else block 0
  | masked quotes, c =>
    if c = '"' then if quotes = 2 then block 0 else masked (quotes + 1)
    else if c = '\\' then masked 0 else block 0
  | emptied, c => if c = '"' then block 0 else if c = '#' then comment else code
  | code, c => if c = '"' then opened else if c = '#' then comment else code

end Region

/-- Where the scan stands after a text. -/
def scan (text : List Char) : Region := text.foldl Region.step .code

/-- The character after a text stands in a comment; so does the number sign that begins it. -/
def InComment (text : List Char) (c : Char) : Prop := scan (text ++ [c]) = .comment

def withoutBreaks (text : List Char) : List Char := text.filter (· ≠ '\n')

/-- Name characters that are adjacent in the text that is sent are adjacent in the document. -/
def KeepsNames (document sent : List Char) : Prop :=
  ∀ u a b v, sent = u ++ a :: b :: v → isNameChar a = true → isNameChar b = true →
    ∃ u' v', document = u' ++ a :: b :: v' ∧ withoutBreaks u' = withoutBreaks u ∧
      withoutBreaks v' = withoutBreaks v

/-- Characters of the document that stand outside of comments do so in the text that is sent. -/
def KeepsComments (document sent : List Char) : Prop :=
  ∀ u c v u' v', document = u ++ c :: v → sent = u' ++ c :: v' → c ≠ '\n' →
    withoutBreaks u' = withoutBreaks u → withoutBreaks v' = withoutBreaks v →
    ¬ InComment u c → ¬ InComment u' c

/-- No two names are parted by line breaks alone. -/
def NamesApart (document : List Char) : Prop :=
  ∀ u a breaks b v, document = u ++ a :: (breaks ++ b :: v) → isNameChar a = true →
    isNameChar b = true → (∀ c ∈ breaks, c = '\n') → breaks = []

/-- What follows after a line break stands where it would stand without it. -/
def Idle (u v : List Char) : Prop :=
  ∀ c w, withoutBreaks v = c :: w → (scan u).step c = ((scan u).step '\n').step c

/-- No string is parted from its quotes, or from another, by line breaks alone. -/
def StringsApart (document : List Char) : Prop :=
  ∀ u v, document = u ++ '\n' :: v → scan u ≠ .comment → Idle u v

/-- A comment that a line break ends is followed by another one, by a line break that is kept, or by
nothing. -/
def CommentsApart (document : List Char) : Prop :=
  ∀ u v, document = u ++ '\n' :: v → scan u = .comment →
    ∀ c w, withoutBreaks v = c :: w → c = '#' ∨ c = '\r'

theorem ne_break_of_isNameChar {c : Char} (h : isNameChar c = true) : c ≠ '\n' := by
  rintro rfl
  exact absurd h (by decide)

section WithoutBreaks

variable {u v u' v' : List Char} {c d : Char}

@[simp] theorem withoutBreaks_nil : withoutBreaks [] = [] := rfl

@[simp] theorem withoutBreaks_append (u v : List Char) :
    withoutBreaks (u ++ v) = withoutBreaks u ++ withoutBreaks v :=
  List.filter_append _ _

@[simp] theorem withoutBreaks_break (v : List Char) :
    withoutBreaks ('\n' :: v) = withoutBreaks v := rfl

theorem withoutBreaks_cons (h : c ≠ '\n') (v : List Char) :
    withoutBreaks (c :: v) = c :: withoutBreaks v :=
  List.filter_cons_of_pos (by simpa using h)

@[simp] theorem withoutBreaks_withoutBreaks (u : List Char) :
    withoutBreaks (withoutBreaks u) = withoutBreaks u :=
  List.filter_filter .. |>.trans (by simp [withoutBreaks])

theorem withoutBreaks_eq_nil_iff : withoutBreaks u = [] ↔ ∀ c ∈ u, c = '\n' := by
  simp [withoutBreaks, List.filter_eq_nil_iff]

/-- Of a text without line breaks nothing is left out. -/
theorem withoutBreaks_of_append_eq (h : withoutBreaks u = v ++ v') : withoutBreaks v = v := by
  refine List.filter_eq_self.mpr fun c hc => ?_
  have hmem : c ∈ withoutBreaks u := h ▸ List.mem_append_left v' hc
  exact (List.mem_filter.mp hmem).2

theorem ne_break_of_eq_cons (h : withoutBreaks u = c :: v) : c ≠ '\n' := by
  have hmem : c ∈ withoutBreaks u := h ▸ List.mem_cons_self
  simpa using (List.mem_filter.mp hmem).2

/-- A character that is kept comes from one place. -/
theorem exists_split (h : withoutBreaks u = v ++ c :: v') :
    ∃ w w', u = w ++ c :: w' ∧ withoutBreaks w = v ∧ withoutBreaks w' = v' := by
  obtain ⟨first, rest, rfl, hfirst, hrest⟩ := List.filter_eq_append_iff.mp h
  obtain ⟨breaks, after, rfl, hbreaks, -, hafter⟩ := List.filter_eq_cons_iff.mp hrest
  have hnone : withoutBreaks breaks = [] := by
    refine withoutBreaks_eq_nil_iff.mpr fun d hd => ?_
    simpa using hbreaks d hd
  refine ⟨first ++ breaks, after, by simp, ?_, hafter⟩
  rw [withoutBreaks_append, hnone, List.append_nil]
  exact hfirst

/-- If as many characters that are kept stand before it, it is the same character. -/
theorem eq_of_withoutBreaks (h : u ++ c :: v = u' ++ d :: v') (hc : c ≠ '\n') (hd : d ≠ '\n')
    (hsame : withoutBreaks u = withoutBreaks u') : u = u' ∧ c = d ∧ v = v' := by
  induction u generalizing u' with
  | nil =>
    cases u' with
    | nil =>
      obtain ⟨rfl, rfl⟩ := List.cons.inj h
      exact ⟨rfl, rfl, rfl⟩
    | cons x xs =>
      obtain ⟨rfl, -⟩ := List.cons.inj h
      rw [withoutBreaks_cons hc] at hsame
      cases hsame
  | cons x xs ih =>
    cases u' with
    | nil =>
      obtain ⟨rfl, -⟩ := List.cons.inj h
      rw [withoutBreaks_cons hd] at hsame
      cases hsame
    | cons y ys =>
      obtain ⟨rfl, htail⟩ := List.cons.inj h
      have hsame : withoutBreaks xs = withoutBreaks ys := by
        by_cases hx : x = '\n'
        · subst hx
          exact hsame
        · rw [withoutBreaks_cons hx, withoutBreaks_cons hx] at hsame
          exact (List.cons.inj hsame).2
      obtain ⟨rfl, hrest⟩ := ih htail hsame
      exact ⟨rfl, hrest⟩

end WithoutBreaks

/-- Leaving out the line breaks keeps the names apart exactly if something else parts them. -/
theorem keepsNames_iff (document : List Char) :
    KeepsNames document (withoutBreaks document) ↔ NamesApart document := by
  constructor
  · intro hkeeps u a breaks b v hdocument ha hb hbreaks
    have hnone := withoutBreaks_eq_nil_iff.mpr hbreaks
    have hsent : withoutBreaks document = withoutBreaks u ++ a :: b :: withoutBreaks v := by
      rw [hdocument, withoutBreaks_append, withoutBreaks_cons (ne_break_of_isNameChar ha),
        withoutBreaks_append, hnone, withoutBreaks_cons (ne_break_of_isNameChar hb)]
      rfl
    obtain ⟨u', v', hsplit, hu, -⟩ := hkeeps _ a b _ hsent ha hb
    rw [withoutBreaks_withoutBreaks] at hu
    obtain ⟨-, -, hrest⟩ := eq_of_withoutBreaks (hdocument.symm.trans hsplit)
      (ne_break_of_isNameChar ha) (ne_break_of_isNameChar ha) hu.symm
    cases breaks with
    | nil => rfl
    | cons c breaks =>
      obtain ⟨rfl, -⟩ := List.cons.inj hrest
      exact absurd (hbreaks c List.mem_cons_self) (ne_break_of_isNameChar hb)
  · intro hapart u a b v hsent ha hb
    obtain ⟨u', rest, rfl, rfl, hrest⟩ := exists_split hsent
    obtain ⟨breaks, v', rfl, hbreaks, rfl⟩ := exists_split (v := []) hrest
    obtain rfl := hapart u' a breaks b v' rfl ha hb (withoutBreaks_eq_nil_iff.mp hbreaks)
    exact ⟨u', v', rfl, (withoutBreaks_withoutBreaks u').symm,
      (withoutBreaks_withoutBreaks v').symm⟩

theorem scan_append_singleton (u : List Char) (c : Char) : scan (u ++ [c]) = (scan u).step c := by
  rw [scan, List.foldl_append]
  rfl

/-- A character stands where it stood, if the line breaks before it are idle. -/
theorem step_scan_withoutBreaks {u v : List Char} (h : ∀ u₁ v₁, u = u₁ ++ '\n' :: v₁ → Idle u₁ (v₁ ++ v))
    {c : Char} {w : List Char} (hc : withoutBreaks v = c :: w) :
    (scan (withoutBreaks u)).step c = (scan u).step c := by
  -- the step from the right: a line break is left out, and after any other character both agree
  induction u using List.reverseRecOn generalizing v c w with
  | nil => rfl
  | append_singleton u d ih =>
    have hbefore : ∀ u₁ v₁, u = u₁ ++ '\n' :: v₁ → Idle u₁ (v₁ ++ d :: v) := by
      rintro u₁ v₁ rfl
      have hidle := h u₁ (v₁ ++ [d]) (by simp)
      rwa [List.append_assoc] at hidle
    by_cases hd : d = '\n'
    · subst hd
      have hidle := h u [] rfl c w hc
      rw [scan_append_singleton, ← hidle, withoutBreaks_append]
      exact (congrArg (fun u => (scan u).step c) (List.append_nil _)).trans (ih hbefore hc)
    · have hsame := ih hbefore (withoutBreaks_cons hd v)
      rw [withoutBreaks_append, withoutBreaks_cons hd, withoutBreaks_nil, scan_append_singleton,
        scan_append_singleton, hsame]

/-- A character that is sent stands in the text where it stands in the document. -/
theorem keepsComments_iff_forall (document : List Char) :
    KeepsComments document (withoutBreaks document) ↔ ∀ u c v, document = u ++ c :: v → c ≠ '\n' →
      InComment (withoutBreaks u) c → InComment u c := by
  constructor
  · intro hkeeps u c v hdocument hc hsent
    have hsplit : withoutBreaks document = withoutBreaks u ++ c :: withoutBreaks v := by
      rw [hdocument, withoutBreaks_append, withoutBreaks_cons hc]
    by_contra hout
    exact hkeeps u c v _ _ hdocument hsplit hc (withoutBreaks_withoutBreaks u)
      (withoutBreaks_withoutBreaks v) hout hsent
  · intro h u c v u' v' hdocument hsent hc hu _ hout hin
    rw [withoutBreaks_of_append_eq hsent] at hu
    subst hu
    exact hout (h u c v hdocument hc hin)

/-- A line break that ends a comment is idle before another comment, and before a line break that is
kept. -/
theorem step_comment_eq_iff {c : Char} (hc : c ≠ '\n') :
    Region.comment.step c = (Region.comment.step '\n').step c ↔ c = '#' ∨ c = '\r' := by
  have hcode : Region.comment.step '\n' = .code := rfl
  rw [hcode]
  simp only [Region.step, hc, false_or]
  by_cases hreturn : c = '\r'
  · subst hreturn
    decide
  · by_cases hquote : c = '"'
    · subst hquote
      decide
    · by_cases hsign : c = '#' <;> simp [hreturn, hquote, hsign]

theorem idle_of_comment {u v : List Char} (hu : scan u = .comment)
    (h : ∀ c w, withoutBreaks v = c :: w → c = '#' ∨ c = '\r') : Idle u v := by
  intro c w hc
  rw [hu, step_comment_eq_iff (ne_break_of_eq_cons hc)]
  exact h c w hc

theorem eq_of_step_code {c : Char} (h : Region.code.step c = .comment) : c = '#' := by
  rw [Region.step] at h
  split at h
  · cases h
  · split at h
    · assumption
    · cases h

/-- After a comment that a line break ends, the scan stands outside of it. -/
theorem scan_append_breaks {u breaks : List Char} (hu : scan u = .comment)
    (hbreaks : ∀ c ∈ breaks, c = '\n') : scan (u ++ '\n' :: breaks) = .code := by
  have hcode : ∀ breaks : List Char, (∀ c ∈ breaks, c = '\n') →
      breaks.foldl Region.step .code = .code := by
    intro breaks hbreaks
    induction breaks with
    | nil => rfl
    | cons c breaks ih =>
      obtain ⟨rfl, hrest⟩ := List.forall_mem_cons.mp hbreaks
      exact ih hrest
  rw [scan, List.foldl_append]
  change breaks.foldl Region.step ((scan u).step '\n') = .code
  rw [hu]
  exact hcode breaks hbreaks

/-- Leaving out the line breaks keeps characters out of comments exactly if no comment needs a line
break to end, as far as strings do not need them. -/
theorem keepsComments_iff {document : List Char} (hstrings : StringsApart document) :
    KeepsComments document (withoutBreaks document) ↔ CommentsApart document := by
  rw [keepsComments_iff_forall]
  constructor
  · intro hkeeps u
    -- by induction on the place of the line break: those before it are idle
    induction hlength : u.length using Nat.strong_induction_on generalizing u with
    | _ length ih =>
      intro v hdocument hu c w hc
      have hbefore : ∀ u₁ v₁, u = u₁ ++ '\n' :: v₁ → Idle u₁ (v₁ ++ '\n' :: v) := by
        rintro u₁ v₁ rfl
        have hsplit : document = u₁ ++ '\n' :: (v₁ ++ '\n' :: v) := by
          rw [hdocument, List.append_assoc]
          rfl
        by_cases hcomment : scan u₁ = .comment
        · have hshorter : u₁.length < length := by
            rw [← hlength, List.length_append, List.length_cons]
            omega
          exact idle_of_comment hcomment (ih _ hshorter u₁ rfl _ hsplit hcomment)
        · exact hstrings u₁ _ hsplit hcomment
      have hstands : (scan (withoutBreaks u)).step c = Region.comment.step c :=
        (step_scan_withoutBreaks hbefore hc).trans (congrArg (·.step c) hu)
      by_cases hreturn : c = '\r'
      · exact .inr hreturn
      · obtain ⟨breaks, rest, rfl, hbreaks, -⟩ := exists_split (v := []) hc
        have hplace : document = (u ++ '\n' :: breaks) ++ c :: rest := by
          rw [hdocument, List.append_assoc]
          rfl
        have hsent : InComment (withoutBreaks (u ++ '\n' :: breaks)) c := by
          rw [withoutBreaks_append, withoutBreaks_break, hbreaks, List.append_nil, InComment,
            scan_append_singleton, hstands]
          exact if_neg (not_or.mpr ⟨ne_break_of_eq_cons hc, hreturn⟩)
        have hin := hkeeps _ c rest hplace (ne_break_of_eq_cons hc) hsent
        rw [InComment, scan_append_singleton,
          scan_append_breaks hu (withoutBreaks_eq_nil_iff.mp hbreaks)] at hin
        exact .inl (eq_of_step_code hin)
  · intro hapart u c v hdocument hc hin
    have hidle : ∀ u₁ v₁, u = u₁ ++ '\n' :: v₁ → Idle u₁ (v₁ ++ c :: v) := by
      rintro u₁ v₁ rfl
      have hsplit : document = u₁ ++ '\n' :: (v₁ ++ c :: v) := by
        rw [hdocument, List.append_assoc]
        rfl
      by_cases hcomment : scan u₁ = .comment
      · exact idle_of_comment hcomment (hapart u₁ _ hsplit hcomment)
      · exact hstrings u₁ _ hsplit hcomment
    rw [InComment, scan_append_singleton] at hin ⊢
    rwa [← step_scan_withoutBreaks hidle (withoutBreaks_cons hc v)]

/-- Without quotes and number signs, the scan finds no strings and no comments. -/
theorem scan_eq_code {u : List Char} (hquote : '"' ∉ u) (hsign : '#' ∉ u) : scan u = .code := by
  induction u using List.reverseRecOn with
  | nil => rfl
  | append_singleton u c ih =>
    rw [List.mem_append, not_or, List.mem_singleton] at hquote hsign
    rw [scan_append_singleton, ih hquote.1 hsign.1, Region.step, if_neg (Ne.symm hquote.2),
      if_neg (Ne.symm hsign.2)]

end GraphClient.Document

namespace GraphClient.Pipeline.ServerStage

open Document

/-- The body carries this text as its query. -/
def CarriesQuery (body query : String) : Prop :=
  ∃ vars, body = (Json.object [("query", .string query), ("variables", .object vars)]).toText

theorem toList_queryText (document : String) :
    (queryText document).toList = withoutBreaks document.toList := by
  rw [queryText, String.toList_ofList]
  rfl

theorem eq_of_carriesQuery {body query other : String} (h : CarriesQuery body query)
    (h' : CarriesQuery body other) : query = other := by
  obtain ⟨vars, rfl⟩ := h
  obtain ⟨others, hsame⟩ := h'
  have hrender := congrArg String.toList hsame
  rw [Json.toList_toText, Json.toList_toText] at hrender
  have hobject := Json.object.inj (Json.render_injective hrender)
  exact Json.string.inj (Prod.mk.inj (List.cons.inj hobject).1).2

/-- What is sent for the document of an operation keeps its names apart and extends no comment, unless
line breaks alone part the names, or end a comment before anything but another one. -/
theorem queryText_keeps (operation : Operation) :
    ∃ query, CarriesQuery (requestBody operation false) query ∧
      (∀ other, CarriesQuery (requestBody operation false) other → other = query) ∧
      (KeepsNames operation.document.toList query.toList ↔
        NamesApart operation.document.toList) ∧
      (StringsApart operation.document.toList →
        (KeepsComments operation.document.toList query.toList ↔
          CommentsApart operation.document.toList)) := by
  have hcarries : CarriesQuery (requestBody operation false) (queryText operation.document) :=
    ⟨operation.vars, rfl⟩
  refine ⟨queryText operation.document, hcarries, fun other h => eq_of_carriesQuery h hcarries, ?_⟩
  rw [toList_queryText]
  exact ⟨keepsNames_iff _, keepsComments_iff⟩

/-- A document without strings and comments in which every line that begins with a name is indented
is sent as it is meant. -/
theorem queryText_keeps_of_indented {document : String}
    (hindented : document.toList.IsChain fun c d => c = '\n' → isNameChar d = false)
    (hquote : '"' ∉ document.toList) (hsign : '#' ∉ document.toList) :
    KeepsNames document.toList (queryText document).toList ∧
      KeepsComments document.toList (queryText document).toList := by
  have hcode : ∀ u v, document.toList = u ++ v → scan u = .code := by
    intro u v hdocument
    rw [hdocument, List.mem_append, not_or] at hquote hsign
    exact scan_eq_code hquote.1 hsign.1
  have hstrings : StringsApart document.toList := by
    intro u v hdocument _ c w _
    rw [hcode u _ hdocument]
    rfl
  rw [toList_queryText]
  refine ⟨(keepsNames_iff _).mpr ?_, (keepsComments_iff hstrings).mpr ?_⟩
  · intro u a breaks b v hdocument _ hb hbreaks
    rcases List.eq_nil_or_concat breaks with hnil | ⟨before, c, rfl⟩
    · exact hnil
    · have hbreak : c = '\n' := hbreaks c (by simp)
      have hwithin : [c, b] <:+: document.toList := ⟨u ++ a :: before, v, by simp [hdocument]⟩
      have hpair := List.IsChain.infix hindented hwithin
      have hname := List.isChain_pair.mp hpair hbreak
      cases hname.symm.trans hb
  · intro u v hdocument hcomment
    cases (hcode u _ hdocument).symm.trans hcomment

/-- Line breaks part two fields, and end a comment. -/
private def heroDocument : String := "\x7b hero \x7b id\nname # the name\nheight \x7d \x7d"

private def heroQuery : Operation :=
  { name := "Hero", document := heroDocument, id := "hero", selections := [] }

/-- The two fields are sent as one name, and the field after the comment is sent in it. -/
theorem exists_fused :
    ∃ query, CarriesQuery (requestBody heroQuery false) query ∧
      query = "\x7b hero \x7b idname # the nameheight \x7d \x7d" ∧
      ¬ KeepsNames heroDocument.toList query.toList ∧
      ¬ KeepsComments heroDocument.toList query.toList := by
  refine ⟨queryText heroDocument, ⟨_, rfl⟩, by decide +kernel, ?_, ?_⟩
  · rw [toList_queryText, keepsNames_iff]
    intro hapart
    have hnone := hapart "\x7b hero \x7b i".toList 'd' ['\n'] 'n'
      "ame # the name\nheight \x7d \x7d".toList (by decide +kernel) rfl rfl (by simp)
    cases hnone
  · rw [toList_queryText, keepsComments_iff_forall]
    intro hkeeps
    have hin := hkeeps "\x7b hero \x7b id\nname # the name\n".toList 'h' "eight \x7d \x7d".toList
      (by decide +kernel) (by decide) (by rw [InComment]; decide +kernel)
    rw [InComment] at hin
    revert hin
    decide +kernel

end GraphClient.Pipeline.ServerStage
