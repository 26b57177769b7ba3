import Windborne.Library.Feeds
import Windborne.Library.Regex
import Windborne.Spring.Store

/-!
# Job fetch calls of the TechEntrance application

`getList` reads five pages and appends the postings that match to a static list, which it returns.
Nothing clears the list. The answer of a call is the list as it is at the return; the source
returns the list itself, so later calls go on adding to it. How a JSON value is printed is a
parameter, and the results are about any test of the contents, the pattern being one.
-/

namespace Windborne.TechEntrance

open Library
open Library.Regex (matchesAll)
open Spring (JavaString javaString)

/-! ## JSON -/

inductive Json where
  | null
  | bool (b : Bool)
  | number (text : JavaString)
  | string (text : JavaString)
  | array (elements : List Json)
  | object (fields : List (JavaString × Json))

/-- What ends a call: an exception, or `System.exit`. -/
inductive Stop where
  | exception
  | exit
  deriving DecidableEq

namespace Json

/-- The cast to `JSONObject`. -/
def asObject : Json → Except Stop (List (JavaString × Json))
  | .object fields => return fields
  | _ => throw .exception

def get (fields : List (JavaString × Json)) (key : String) : Except Stop Json :=
  match fields.lookup (javaString key) with
  | some value => return value
  | none => throw .exception

def getJSONArray (fields : List (JavaString × Json)) (key : String) :
    Except Stop (List Json) := do
  match ← get fields key with
  | .array elements => return elements
  | _ => throw .exception

end Json

/-! ## The pattern -/

def tokens : List JavaString := [javaString "Python", javaString "Java", javaString "C++"]

def patternString : JavaString :=
  javaString ".*\\b(" ++ (javaString "|").intercalate tokens ++ javaString ")\\b.*"

/-- `Pattern.compile` outside of any handler. -/
def pattern : Option (Regex UInt16) := Pattern.compile patternString

/-- `matcher.matches()` for the contents of a posting. -/
def isMatch (rules : TextRules UInt16) (content : JavaString) : Bool :=
  pattern.any fun r => matchesAll rules r content

def lineTerminators : List UInt16 := [0x0a, 0x0d, 0x85, 0x2028, 0x2029]

/-- The word characters among the first 128. -/
def isWord (c : UInt16) : Bool :=
  (0x30 ≤ c && c ≤ 0x39) || (0x41 ≤ c && c ≤ 0x5a) || c == 0x5f || (0x61 ≤ c && c ≤ 0x7a)

/-- No other character is a word character. -/
def asciiRules : TextRules UInt16 where
  terminator c := decide (c ∈ lineTerminators)
  left p := p.before.head?.any isWord
  right p := p.after.head?.any isWord

/-! ## Calls -/

structure ApiObject where
  contents : JavaString
  names : JavaString
  types : JavaString
  publicationDate : JavaString
  shortName : JavaString
  modelType : JavaString
  id : JavaString
  locations : List JavaString
  categories : List JavaString
  levels : List JavaString
  tags : List JavaString
  refs : JavaString
  company : JavaString
  deriving DecidableEq

/-- How the request for a page goes. The body is that of the response as a JSON object, if it
can be read as one. -/
inductive PageResponse where
  | exception
  | response (code : Int) (body : Option (List (JavaString × Json)))

/-- The responses to the requests of one call, by the number of the page. -/
abbrev Call := Nat → PageResponse

inductive Answer where
  | returned (list : Option (List ApiObject))
  | exited
  deriving DecidableEq

section Fetch

variable (toText : Json → JavaString) (isMatch : JavaString → Bool)

open Json in
/-- The fields of a posting. -/
def parsePosting (x : Json) : Except Stop ApiObject := do
  let newObj ← asObject x
  let content ← toText <$> get newObj "contents"
  let name ← toText <$> get newObj "name"
  let type ← toText <$> get newObj "type"
  let publicationDate ← toText <$> get newObj "publication_date"
  let shortName ← toText <$> get newObj "short_name"
  let modelType ← toText <$> get newObj "model_type"
  let id ← toText <$> get newObj "id"
  let loc ← List.map toText <$> getJSONArray newObj "locations"
  let cat ← List.map toText <$> getJSONArray newObj "categories"
  let lev ← List.map toText <$> getJSONArray newObj "levels"
  let tag ← List.map toText <$> getJSONArray newObj "tags"
  let refsObject ← asObject (← get newObj "refs")
  let jobIdLink ← toText <$> get refsObject "landing_page"
  let companyObject ← asObject (← get newObj "company")
  let companyName ← toText <$> get companyObject "name"
  return ⟨content, name, type, publicationDate, shortName, modelType, id, loc, cat, lev, tag,
    jobIdLink, companyName⟩

/-- The body of the inner loop. -/
def addPosting (x : Json) : AppendM Stop ApiObject Unit := do
  let apiObject ← liftM (parsePosting toText x)
  if isMatch apiObject.contents then modify (· ++ [apiObject]) else return ()

/-- The body of the outer loop. -/
def readPage : PageResponse → AppendM Stop ApiObject Unit
  | .exception => throw .exception
  | .response code body =>
    if code ≠ 200 then throw .exit
    else
      match body with
      | none => throw .exception
      | some fields => do
        let arr ← liftM (Json.getJSONArray fields "results")
        arr.forM (addPosting toText isMatch)

/-- The numbers of the pages. -/
def pages : List Nat := List.range' 1 5

/-- A call, from the static list to the list after it. -/
def getList (call : Call) (apiObjectsList : List ApiObject) : Answer × List ApiObject :=
  match (pages.forM fun count => readPage toText isMatch (call count)) apiObjectsList with
  | (.ok (), list) => (.returned (some list), list)
  | (.error .exception, list) => (.returned none, list)
  | (.error .exit, list) => (.exited, list)

/-- The static list after a sequence of calls; there is none when the program has exited. -/
def listAfter (list : List ApiObject) : List Call → Option (List ApiObject)
  | [] => some list
  | call :: calls =>
    match getList toText isMatch call list with
    | (.exited, _) => none
    | (.returned _, list) => listAfter list calls

/-! ## What a call should return -/

/-- The elements of the array of results of a page. -/
def results : PageResponse → List Json
  | .exception => []
  | .response code body =>
    if code ≠ 200 then []
    else
      match body with
      | none => []
      | some fields => (Json.getJSONArray fields "results").toOption.getD []

/-- The postings of the five pages that match, in the order of the pages. -/
def postings (call : Call) : List ApiObject :=
  pages.flatMap fun count =>
    ((results (call count)).filterMap fun x => (parsePosting toText x).toOption).filter
      fun apiObject => isMatch apiObject.contents

/-- **Independence.** Every call that does not fail returns its own postings. -/
def Independent (calls : List Call) : Prop :=
  ∀ earlier call later list result, calls = earlier ++ call :: later →
    listAfter toText isMatch [] earlier = some list →
      (getList toText isMatch call list).1 = .returned (some result) →
        result = postings toText isMatch call

/-! ## Feeds -/

/-- A posting that matches, or the exception with which it is read. -/
def postingFeed (x : Json) : Feed Stop ApiObject :=
  match parsePosting toText x with
  | .error e => [.error e]
  | .ok apiObject => if isMatch apiObject.contents then [.ok apiObject] else []

def pageFeed : PageResponse → Feed Stop ApiObject
  | .exception => [.error .exception]
  | .response code body =>
    if code ≠ 200 then [.error .exit]
    else
      match body with
      | none => [.error .exception]
      | some fields =>
        match Json.getJSONArray fields "results" with
        | .error e => [.error e]
        | .ok arr => arr.flatMap (postingFeed toText isMatch)

/-- What a call reads: the postings that match and the first failure. -/
def feed (call : Call) : Feed Stop ApiObject :=
  pages.flatMap fun count => pageFeed toText isMatch (call count)

/-- No call of the sequence that does not fail comes after one that has read a posting that
matches, be it before a failure. -/
def Undisturbed (calls : List Call) : Prop :=
  ∀ earlier call later, calls = earlier ++ call :: later →
    (∀ c ∈ earlier, (feed toText isMatch c).outcome ≠ .error .exit) →
      (feed toText isMatch call).outcome = .ok () →
        ∀ c ∈ earlier, (feed toText isMatch c).emitted = []

variable {toText : Json → JavaString} {isMatch : JavaString → Bool}

theorem follows_addPosting (x : Json) :
    Follows (addPosting toText isMatch x) (postingFeed toText isMatch x) := by
  unfold addPosting postingFeed
  cases parsePosting toText x with
  | error e => exact Performs.throw e ()
  | ok apiObject =>
    show Follows (if isMatch apiObject.contents then _ else _) (if _ then _ else _)
    split_ifs
    · exact Performs.modify fun _ => rfl
    · exact Performs.pure ()

theorem follows_readPage (response : PageResponse) :
    Follows (readPage toText isMatch response) (pageFeed toText isMatch response) := by
  cases response with
  | exception => exact Performs.throw Stop.exception ()
  | response code body =>
    unfold readPage pageFeed
    dsimp only
    split_ifs
    · exact Performs.throw Stop.exit ()
    · cases body with
      | none => exact Performs.throw Stop.exception ()
      | some fields =>
        dsimp only
        cases Json.getJSONArray fields "results" with
        | error e => exact Performs.throw e ()
        | ok arr => exact Performs.forM fun x _ => follows_addPosting x

theorem follows_pages (call : Call) :
    Follows (pages.forM fun count => readPage toText isMatch (call count))
      (feed toText isMatch call) :=
  Performs.forM fun count _ => follows_readPage (call count)

/-- **A call.** It adds what its feed emits to the static list. -/
theorem getList_eq (call : Call) (list : List ApiObject) :
    getList toText isMatch call list =
      let list' := list ++ (feed toText isMatch call).emitted
      match (feed toText isMatch call).outcome with
      | .ok () => (.returned (some list'), list')
      | .error .exception => (.returned none, list')
      | .error .exit => (.exited, list') := by
  unfold getList
  rw [(follows_pages call).run list]
  rcases (feed toText isMatch call).outcome with (_ | _) | _
  · rfl
  · rfl
  · rfl

theorem items_postingFeed (x : Json) :
    (postingFeed toText isMatch x).items =
      (parsePosting toText x).toOption.toList.filter fun apiObject =>
        isMatch apiObject.contents := by
  unfold postingFeed
  cases parsePosting toText x with
  | error e => rfl
  | ok apiObject =>
    cases hMatch : isMatch apiObject.contents with
    | false => simp [Feed.items, Except.toOption, hMatch]
    | true => simp [Feed.items, Except.toOption, hMatch]

/-- The items of a page are its postings that match. -/
theorem items_pageFeed (response : PageResponse) :
    (pageFeed toText isMatch response).items =
      ((results response).filterMap fun x => (parsePosting toText x).toOption).filter
        fun apiObject => isMatch apiObject.contents := by
  cases response with
  | exception => rfl
  | response code body =>
    unfold pageFeed results
    dsimp only
    split_ifs with hCode
    · rfl
    · cases body with
      | none => rfl
      | some fields =>
        dsimp only
        cases Json.getJSONArray fields "results" with
        | error e => rfl
        | ok arr =>
          show Feed.items (arr.flatMap (postingFeed toText isMatch)) =
            (arr.filterMap _).filter _
          rw [Feed.items_flatMap, List.filterMap_eq_flatMap_toList, List.filter_flatMap]
          simp only [items_postingFeed]

theorem items_feed (call : Call) :
    (feed toText isMatch call).items = postings toText isMatch call := by
  unfold feed postings
  rw [Feed.items_flatMap]
  simp only [items_pageFeed]

/-! ## Sequences of calls -/

/-- A call returns a list exactly if no page fails, and it returns the static list. -/
theorem returned_iff {call : Call} {list result : List ApiObject} :
    (getList toText isMatch call list).1 = .returned (some result) ↔
      (feed toText isMatch call).outcome = .ok () ∧
        result = list ++ postings toText isMatch call := by
  rw [getList_eq]
  dsimp only
  cases hOutcome : (feed toText isMatch call).outcome with
  | error e =>
    cases e with
    | exception => simp
    | exit => simp
  | ok u =>
    rw [Feed.emitted_of_ok hOutcome, items_feed]
    simp [eq_comm]

/-- Until the program exits, the static list has what all calls have read. -/
theorem listAfter_eq_some {calls : List Call} {list list' : List ApiObject} :
    listAfter toText isMatch list calls = some list' ↔
      (∀ c ∈ calls, (feed toText isMatch c).outcome ≠ .error .exit) ∧
        list' = list ++ calls.flatMap fun c => (feed toText isMatch c).emitted := by
  induction calls generalizing list with
  | nil => simp [listAfter, eq_comm]
  | cons call calls ih =>
    unfold listAfter
    rw [getList_eq]
    dsimp only
    cases hOutcome : (feed toText isMatch call).outcome with
    | error e =>
      cases e with
      | exception =>
        dsimp only
        rw [ih]
        simp [hOutcome]
      | exit => simp [hOutcome]
    | ok u =>
      dsimp only
      rw [ih]
      simp [hOutcome]

/-- **Job fetch.** The calls are independent exactly if they are undisturbed. -/
theorem independent_iff (toText : Json → JavaString) (isMatch : JavaString → Bool)
    (calls : List Call) :
    Independent toText isMatch calls ↔ Undisturbed toText isMatch calls := by
  constructor
  · intro hAll earlier call later hCalls hRunning hOk
    have hList := listAfter_eq_some.mpr (And.intro hRunning (Eq.refl ([] ++ _)))
    have hOwn := hAll earlier call later _ _ hCalls hList (returned_iff.mpr ⟨hOk, rfl⟩)
    rw [List.nil_append, List.append_left_eq_self] at hOwn
    exact List.flatMap_eq_nil_iff.mp hOwn
  · intro hAll earlier call later list result hCalls hList hReturned
    obtain ⟨hRunning, hEarlier⟩ := listAfter_eq_some.mp hList
    obtain ⟨hOk, hResult⟩ := returned_iff.mp hReturned
    have hNone := List.flatMap_eq_nil_iff.mpr (hAll earlier call later hCalls hRunning hOk)
    rw [hResult, hEarlier, hNone]
    rfl

end Fetch

/-! ## The same call twice -/

/-- Strings are printed as they are. -/
def printString : Json → JavaString
  | .string text => text
  | _ => []

/-- A posting whose contents match; its other texts are empty. -/
def javaJob : Json := .object [(javaString "contents", .string (javaString "Java")),
  (javaString "name", .string []), (javaString "type", .string []),
  (javaString "publication_date", .string []), (javaString "short_name", .string []),
  (javaString "model_type", .string []), (javaString "id", .string []),
  (javaString "locations", .array []), (javaString "categories", .array []),
  (javaString "levels", .array []), (javaString "tags", .array []),
  (javaString "refs", .object [(javaString "landing_page", .string [])]),
  (javaString "company", .object [(javaString "name", .string [])])]

/-- The first page has one job and the others have none. -/
def oneJob : Call := fun count =>
  .response 200 (some [(javaString "results", .array (if count = 1 then [javaJob] else []))])

/-- The second call returns the job of the first call too. -/
theorem not_independent_oneJob :
    ¬Independent printString (isMatch asciiRules) [oneJob, oneJob] := by
  intro hAll
  have hFirst : ∃ list, listAfter printString (isMatch asciiRules) [] [oneJob] = some list ∧
      ∃ result, (getList printString (isMatch asciiRules) oneJob list).1 =
        .returned (some result) ∧ result.length = 2 :=
    ⟨[⟨javaString "Java", [], [], [], [], [], [], [], [], [], [], [], []⟩], by decide +kernel,
      List.replicate 2 ⟨javaString "Java", [], [], [], [], [], [], [], [], [], [], [], []⟩,
      by decide +kernel, rfl⟩
  obtain ⟨list, hList, result, hResult, hTwo⟩ := hFirst
  have hOwn := hAll [oneJob] oneJob [] list result rfl hList hResult
  have hOne : (postings printString (isMatch asciiRules) oneJob).length = 1 := by decide +kernel
  rw [← hOwn, hTwo] at hOne
  cases hOne

end Windborne.TechEntrance
