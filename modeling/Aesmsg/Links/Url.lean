import Aesmsg.Client.Codecs
import Aesmsg.Lib.Trim
import Aesmsg.Lib.Urlencoded

/-!
# The links that are shared

A link from the server to the readers: the URL that the create handler answers, the deep link and the
browser link of `apps/web/src/bouncer`, `secureLinkUrl` of `apps/webapp/src/links/link-url.ts`, and what
reads them: `apps/webapp/src/reader/reader-id.ts` and `apps/mobile/src/navigation/parse-link-id.ts`.  The
latter uses `Linking.parse` of expo-linking, a parameter.

## Main results

- `link_found`: each reader finds the id of each link that the product makes, and accepts no other text
  than a link id.
-/

namespace Aesmsg.Links.Url

open Api Client

/-! ## Writers -/

def SECURE_LINK_ORIGIN : String := "https://www.aesmsg.com"

/-- `${publicLinkOrigin}/l/${id}` -/
def linkUrl (origin id : String) : String := origin ++ "/l/" ++ id

def secureLinkUrl (id : String) : String := linkUrl SECURE_LINK_ORIGIN id

def appDeepLink (id : String) : Option String :=
  if !isLinkId id then none else some ("aesmsg://l/" ++ id)

def browserReaderUrl (webappOrigin id : String) : Option String :=
  if !isLinkId id then none else some (linkUrl webappOrigin id)

/-! ## The browser reader -/

/-- The group of `LINK_PATH_REGEX`, `/^\/l\/([A-Za-z0-9_-]{16})\/?$/`. -/
def linkPath (pathname : String) : Option String :=
  if ['/', 'l', '/'].isPrefixOf pathname.toList then
    let rest := pathname.toList.drop 3
    let segment := String.ofList (if rest.getLast? = some '/' then rest.dropLast else rest)
    if isLinkId segment then some segment else none
  else none

def readLinkId (pathname search : String) : Option String :=
  match linkPath pathname with
  | some pathId => some pathId
  | none => (Urlencoded.get (Urlencoded.parse search) "id").filter isLinkId

/-! ## The app -/

/-- What `Linking.parse` returns, without the query. -/
structure ParsedURL where
  scheme : Option String
  hostname : Option String
  path : Option String

/-- The authority of a link that is none of the web is its first segment. -/
def ParsedURL.fullPath (url : ParsedURL) : Option String :=
  let isWeb := url.scheme = some "http" ∨ url.scheme = some "https"
  match url.hostname with
  | some hostname =>
    if ¬isWeb ∧ hostname ≠ "" then
      match url.path with
      | some path => some (if path = "" then hostname else hostname ++ "/" ++ path)
      | none => some hostname
    else url.path
  | none => url.path

/-- The group of `/^l\/([^/]+)$/`. -/
def linkSegment (path : String) : Option String :=
  let segment := path.toList.drop 2
  if ['l', '/'].isPrefixOf path.toList ∧ segment ≠ [] ∧ '/' ∉ segment then some (String.ofList segment)
  else none

/-- `s.trim()` -/
def trim (s : String) : String := String.ofList (Trim.trim (fun c ↦ Trim.isSpace c.toNat) s.toList)

section App

variable (parse : String → ParsedURL)

def parseLinkId (url : String) : Option String :=
  if url = "" then none else (parse url).fullPath.bind linkSegment

def parsePastedLink (input : String) : Option String :=
  let trimmed := trim input
  if trimmed = "" then none
  else if isLinkId trimmed then some trimmed
  else (parseLinkId parse trimmed).filter isLinkId

/-- `Linking.parse` reads a link of this origin as one of the web, with its path. -/
def ReadsWeb (origin : String) : Prop :=
  ∀ id, isLinkId id = true → ∃ hostname,
    parse (linkUrl origin id) = ⟨some "https", hostname, some ("l/" ++ id)⟩

/-- It takes the first segment of a link with the scheme of the app for the authority. -/
def ReadsApp : Prop :=
  ∀ id, isLinkId id = true → parse ("aesmsg://l/" ++ id) = ⟨some "aesmsg", some "l", some id⟩

end App

/-! ## Link ids -/

section LinkId

variable {id : String}

theorem isLinkId_iff : isLinkId id = true ↔
    id.toList.length = 16 ∧ ∀ c ∈ id.toList, (c.isAlphanum || c = '_' || c = '-') = true := by
  unfold isLinkId
  rw [decide_eq_true_eq, List.all_eq_true]
  exact Iff.rfl

/-- What is no letter, no digit and neither of the two signs is in no link id. -/
theorem not_mem_of_isLinkId (hid : isLinkId id = true) {c : Char}
    (hc : (c.isAlphanum || c = '_' || c = '-') = false) : c ∉ id.toList := by
  intro hmem
  have hin := (isLinkId_iff.mp hid).2 c hmem
  rw [hc] at hin
  cases hin

theorem ne_nil_of_isLinkId (hid : isLinkId id = true) : id.toList ≠ [] := by
  intro hnil
  have hlength := (isLinkId_iff.mp hid).1
  rw [hnil] at hlength
  cases hlength

theorem toNat_of_between {c d d' : Char} (h : d.val ≤ c.val) (h' : c.val ≤ d'.val)
    (hd : 0x20 < d.toNat) (hd' : d'.toNat < 128) : c.toNat < 128 ∧ 0x20 < c.toNat :=
  ⟨Nat.lt_of_le_of_lt (UInt32.le_iff_toNat_le.mp h') hd',
    Nat.lt_of_lt_of_le hd (UInt32.le_iff_toNat_le.mp h)⟩

theorem toNat_of_isAlphanum {c : Char} (h : c.isAlphanum = true) : c.toNat < 128 ∧ 0x20 < c.toNat := by
  have hcases : (decide ('A'.val ≤ c.val ∧ c.val ≤ 'Z'.val) ||
      (decide ('a'.val ≤ c.val) && decide (c.val ≤ 'z'.val)) ||
      (decide ('0'.val ≤ c.val) && decide (c.val ≤ '9'.val))) = true := h
  rcases Bool.or_eq_true_iff.mp hcases with hletter | hdigit
  · rcases Bool.or_eq_true_iff.mp hletter with hupper | hlower
    · obtain ⟨hge, hle⟩ := of_decide_eq_true hupper
      exact toNat_of_between hge hle (by decide) (by decide)
    · obtain ⟨hge, hle⟩ := Bool.and_eq_true_iff.mp hlower
      exact toNat_of_between (of_decide_eq_true hge) (of_decide_eq_true hle) (by decide) (by decide)
  · obtain ⟨hge, hle⟩ := Bool.and_eq_true_iff.mp hdigit
    exact toNat_of_between (of_decide_eq_true hge) (of_decide_eq_true hle) (by decide) (by decide)

theorem no_space {cs : List Char} (h : cs.all (fun c ↦ !Trim.isSpace c.toNat) = true) :
    ∀ c ∈ cs, Trim.isSpace c.toNat = false :=
  fun c hc ↦ Bool.not_eq_eq_eq_not.mp (List.all_eq_true.mp h c hc)

/-- A character of a link id is no white space, and is not encoded in a query. -/
theorem plain_of_isLinkId (hid : isLinkId id = true) : ∀ c ∈ id.toList,
    Urlencoded.IsPlain c ∧ Trim.isSpace c.toNat = false := by
  intro c hc
  have hin := (isLinkId_iff.mp hid).2 c hc
  have hrange : c.toNat < 128 ∧ 0x20 < c.toNat := by
    rcases Bool.or_eq_true_iff.mp hin with h | h
    · rcases Bool.or_eq_true_iff.mp h with h | h
      · exact toNat_of_isAlphanum h
      · rw [of_decide_eq_true h]
        decide
    · rw [of_decide_eq_true h]
      decide
  refine ⟨⟨hrange.1, fun hmem ↦ ?_⟩, ?_⟩
  · have hnone : ['%', '+', '&', '=', '?'].any (fun d ↦ d.isAlphanum || d = '_' || d = '-') = false := rfl
    exact List.any_eq_false.mp hnone c hmem hin
  · have hall : ∀ n < 128, 0x20 < n → Trim.isSpace n = false := by decide
    exact hall c.toNat hrange.1 hrange.2

end LinkId

section Read

variable {parse : String → ParsedURL} {origin id : String}

theorem linkSegment_link (hid : isLinkId id = true) : linkSegment ("l/" ++ id) = some id := by
  have htext : ("l/" ++ id).toList = 'l' :: '/' :: id.toList := String.toList_append
  unfold linkSegment
  rw [htext]
  show (if (['l', '/'].isPrefixOf ('l' :: '/' :: id.toList)) = true ∧ id.toList ≠ [] ∧ '/' ∉ id.toList then
    some (String.ofList id.toList) else none) = some id
  have hstart : ['l', '/'].isPrefixOf ('l' :: '/' :: id.toList) = true :=
    List.isPrefixOf_iff_prefix.mpr ⟨id.toList, rfl⟩
  rw [if_pos ⟨hstart, ne_nil_of_isLinkId hid, not_mem_of_isLinkId hid (by decide)⟩, String.ofList_toList]

theorem parseLinkId_web (hweb : ReadsWeb parse origin) (hid : isLinkId id = true) :
    parseLinkId parse (linkUrl origin id) = some id := by
  obtain ⟨hostname, hparse⟩ := hweb id hid
  have hne : linkUrl origin id ≠ "" := by
    intro h
    have hlist := congrArg String.toList h
    unfold linkUrl at hlist
    rw [String.toList_append, String.toList_append] at hlist
    simp at hlist
  have hpath : (⟨some "https", hostname, some ("l/" ++ id)⟩ : ParsedURL).fullPath = some ("l/" ++ id) := by
    unfold ParsedURL.fullPath
    cases hostname with
    | none => rfl
    | some hostname => simp
  unfold parseLinkId
  rw [if_neg hne, hparse, hpath]
  exact linkSegment_link hid

theorem parseLinkId_app (happ : ReadsApp parse) (hid : isLinkId id = true) :
    parseLinkId parse ("aesmsg://l/" ++ id) = some id := by
  have hne : "aesmsg://l/" ++ id ≠ "" := by
    intro h
    have hlist := congrArg String.toList h
    rw [String.toList_append] at hlist
    simp at hlist
  have hid' : id ≠ "" := fun h ↦ ne_nil_of_isLinkId hid (by rw [h]; rfl)
  have hpath : (⟨some "aesmsg", some "l", some id⟩ : ParsedURL).fullPath = some ("l/" ++ id) := by
    unfold ParsedURL.fullPath
    simp [hid']
  unfold parseLinkId
  rw [if_neg hne, happ id hid, hpath]
  exact linkSegment_link hid

/-- The text after `/l/`, without a slash at its end. -/
theorem linkPath_of_segment {pathname : String} {rest : List Char}
    (hrest : pathname.toList = ['/', 'l', '/'] ++ rest)
    (hsegment : (if rest.getLast? = some '/' then rest.dropLast else rest) = id.toList)
    (hid : isLinkId id = true) : linkPath pathname = some id := by
  have hdrop : (['/', 'l', '/'] ++ rest).drop 3 = rest := rfl
  unfold linkPath
  rw [hrest, if_pos (List.isPrefixOf_iff_prefix.mpr ⟨rest, rfl⟩), hdrop]
  dsimp only
  rw [hsegment, String.ofList_toList, if_pos hid]

theorem linkPath_link (hid : isLinkId id = true) :
    linkPath ("/l/" ++ id) = some id ∧ linkPath ("/l/" ++ id ++ "/") = some id := by
  have hlast : id.toList.getLast? ≠ some '/' := fun h ↦
    not_mem_of_isLinkId hid (by decide) (List.mem_of_getLast? h)
  constructor
  · exact linkPath_of_segment String.toList_append (if_neg hlast) hid
  · have htext : ("/l/" ++ id ++ "/").toList = ['/', 'l', '/'] ++ (id.toList ++ ['/']) := by
      rw [String.toList_append, String.toList_append, List.append_assoc]
      rfl
    refine linkPath_of_segment htext ?_ hid
    rw [if_pos List.getLast?_concat, List.dropLast_concat]

theorem linkPath_isLinkId {pathname : String} (h : linkPath pathname = some id) :
    isLinkId id = true ∧ (pathname = "/l/" ++ id ∨ pathname = "/l/" ++ id ++ "/") := by
  unfold linkPath at h
  split at h
  · rename_i hstart
    obtain ⟨rest, hrest⟩ := List.isPrefixOf_iff_prefix.mp hstart
    have hdrop : pathname.toList.drop 3 = rest := by
      rw [← hrest]
      rfl
    rw [hdrop] at h
    obtain ⟨hid, heq⟩ := Option.ite_none_right_eq_some.mp h
    obtain rfl := Option.some.inj heq
    refine ⟨hid, ?_⟩
    by_cases hlast : rest.getLast? = some '/'
    · obtain ⟨init, rfl⟩ := List.getLast?_eq_some_iff.mp hlast
      refine .inr (String.toList_inj.mp ?_)
      rw [if_pos hlast, List.dropLast_concat, String.toList_append, String.toList_append, ← hrest]
      simp
    · refine .inl (String.toList_inj.mp ?_)
      rw [if_neg hlast, String.toList_append, ← hrest]
      simp
  · cases h

theorem of_readLinkId {pathname search : String} (h : readLinkId pathname search = some id) :
    isLinkId id = true ∧ (pathname = "/l/" ++ id ∨ pathname = "/l/" ++ id ++ "/" ∨
      linkPath pathname = none ∧ Urlencoded.get (Urlencoded.parse search) "id" = some id) := by
  unfold readLinkId at h
  cases hpath : linkPath pathname with
  | some pathId =>
    rw [hpath] at h
    obtain rfl := Option.some.inj h
    obtain ⟨hid, heq | heq⟩ := linkPath_isLinkId hpath
    · exact ⟨hid, .inl heq⟩
    · exact ⟨hid, .inr (.inl heq)⟩
  | none =>
    rw [hpath] at h
    obtain ⟨hget, hid⟩ := Option.filter_eq_some_iff.mp h
    exact ⟨hid, .inr (.inr ⟨rfl, hget⟩)⟩

/-- A text with a slash is no link id. -/
theorem isLinkId_of_slash {text : String} (h : '/' ∈ text.toList) : isLinkId text = false :=
  Bool.eq_false_iff.mpr fun hid ↦ not_mem_of_isLinkId hid (by decide) h

/-- White space, and no other character. -/
def Blank (s : String) : Prop := ∀ c ∈ s.toList, Trim.isSpace c.toNat = true

theorem trim_between {before text after : String} (hbefore : Blank before) (hafter : Blank after)
    (htext : ∀ c ∈ text.toList, Trim.isSpace c.toNat = false) : trim (before ++ text ++ after) = text := by
  unfold trim
  rw [String.toList_append, String.toList_append, Trim.trim_append hbefore hafter htext,
    String.ofList_toList]

/-- A link that is pasted, with any white space around it. -/
theorem parsePastedLink_of {before text after : String} (hbefore : Blank before) (hafter : Blank after)
    (htext : ∀ c ∈ text.toList, Trim.isSpace c.toNat = false) (hslash : '/' ∈ text.toList)
    (hparse : parseLinkId parse text = some id) (hid : isLinkId id = true) :
    parsePastedLink parse (before ++ text ++ after) = some id := by
  have hne : text ≠ "" := by
    rintro rfl
    cases hslash
  unfold parsePastedLink
  rw [trim_between hbefore hafter htext, if_neg hne, isLinkId_of_slash hslash, hparse]
  exact Option.filter_some_pos hid

/-- An id on its own is no link, and is taken as it is. -/
theorem parsePastedLink_id {before after : String} (hbefore : Blank before) (hafter : Blank after)
    (hid : isLinkId id = true) : parsePastedLink parse (before ++ id ++ after) = some id := by
  have hne : id ≠ "" := by
    rintro rfl
    exact ne_nil_of_isLinkId hid rfl
  unfold parsePastedLink
  rw [trim_between hbefore hafter fun c hc ↦ (plain_of_isLinkId hid c hc).2, if_neg hne, if_pos hid]

theorem parsePastedLink_web {before after : String} (hweb : ReadsWeb parse origin)
    (horigin : ∀ c ∈ origin.toList, Trim.isSpace c.toNat = false)
    (hbefore : Blank before) (hafter : Blank after) (hid : isLinkId id = true) :
    parsePastedLink parse (before ++ linkUrl origin id ++ after) = some id := by
  have hlist : (linkUrl origin id).toList = origin.toList ++ ['/', 'l', '/'] ++ id.toList := by
    unfold linkUrl
    rw [String.toList_append, String.toList_append]
    rfl
  have hslashes : ∀ c ∈ ['/', 'l', '/'], Trim.isSpace c.toNat = false := no_space rfl
  refine parsePastedLink_of hbefore hafter ?_ ?_ (parseLinkId_web hweb hid) hid
  · intro c hc
    rw [hlist] at hc
    rcases List.mem_append.mp hc with hc | hc
    · rcases List.mem_append.mp hc with hc | hc
      · exact horigin c hc
      · exact hslashes c hc
    · exact (plain_of_isLinkId hid c hc).2
  · rw [hlist]
    simp

theorem parsePastedLink_app {before after : String} (happ : ReadsApp parse)
    (hbefore : Blank before) (hafter : Blank after) (hid : isLinkId id = true) :
    parsePastedLink parse (before ++ ("aesmsg://l/" ++ id) ++ after) = some id := by
  have hlist : ("aesmsg://l/" ++ id).toList = "aesmsg://l/".toList ++ id.toList := String.toList_append
  have hscheme : ∀ c ∈ "aesmsg://l/".toList, Trim.isSpace c.toNat = false := no_space (by decide)
  refine parsePastedLink_of hbefore hafter ?_ ?_ (parseLinkId_app happ hid) hid
  · intro c hc
    rw [hlist] at hc
    rcases List.mem_append.mp hc with hc | hc
    · exact hscheme c hc
    · exact (plain_of_isLinkId hid c hc).2
  · rw [hlist]
    exact List.mem_append_left _ (by decide)

theorem readLinkId_query {pathname : String} (hpathname : linkPath pathname = none)
    (hid : isLinkId id = true) : readLinkId pathname ("?id=" ++ id) = some id := by
  have hname : ∀ c ∈ ['i', 'd'], Urlencoded.IsPlain c :=
    List.forall_mem_cons.mpr ⟨⟨by decide, by decide⟩, List.forall_mem_singleton.mpr ⟨by decide, by decide⟩⟩
  have hget := Urlencoded.get_single hname fun c hc ↦ (plain_of_isLinkId hid c hc).1
  have htext : "?id=" ++ id = String.ofList ('?' :: (['i', 'd'] ++ '=' :: id.toList)) :=
    String.toList_inj.mp (by simp)
  unfold readLinkId
  rw [hpathname, htext, hget]
  show (some (String.ofList id.toList)).filter isLinkId = some id
  rw [String.ofList_toList]
  exact Option.filter_some_pos hid

end Read

/-- Each reader finds the id in each form of the link. -/
structure Found (parse : String → ParsedURL) (origin id : String) : Prop where
  opened : parseLinkId parse (linkUrl origin id) = some id ∧
    parseLinkId parse ("aesmsg://l/" ++ id) = some id
  pasted : ∀ before after, Blank before → Blank after →
    ∀ text ∈ [id, linkUrl origin id, "aesmsg://l/" ++ id],
      parsePastedLink parse (before ++ text ++ after) = some id
  path : ∀ search, readLinkId ("/l/" ++ id) search = some id ∧
    readLinkId ("/l/" ++ id ++ "/") search = some id
  /-- The form of a development server. -/
  query : ∀ pathname, linkPath pathname = none → readLinkId pathname ("?id=" ++ id) = some id
  bouncer : appDeepLink id = some ("aesmsg://l/" ++ id) ∧
    ∀ webappOrigin, browserReaderUrl webappOrigin id = some (linkUrl webappOrigin id)

/-- What is read or made is of a link id, and the browser prefers the path. -/
structure Strict (parse : String → ParsedURL) : Prop where
  pasted : ∀ input id, parsePastedLink parse input = some id → isLinkId id = true
  read : ∀ pathname search id, readLinkId pathname search = some id → isLinkId id = true ∧
    (pathname = "/l/" ++ id ∨ pathname = "/l/" ++ id ++ "/" ∨
      linkPath pathname = none ∧ Urlencoded.get (Urlencoded.parse search) "id" = some id)
  bouncer : ∀ id, isLinkId id = false →
    appDeepLink id = none ∧ ∀ webappOrigin, browserReaderUrl webappOrigin id = none

theorem strict (parse : String → ParsedURL) : Strict parse := by
  constructor
  · intro input id h
    unfold parsePastedLink at h
    dsimp only at h
    split at h
    · cases h
    · split at h
      · rename_i hid
        obtain rfl := Option.some.inj h
        exact hid
      · exact (Option.filter_eq_some_iff.mp h).2
  · exact fun pathname search id ↦ of_readLinkId
  · intro id hid
    constructor
    · unfold appDeepLink
      rw [hid]
      rfl
    · intro webappOrigin
      unfold browserReaderUrl
      rw [hid]
      rfl

/-- A link of the server, of the bouncer or of a list is read to its id by the app and by the browser,
and neither takes anything else for a link. -/
theorem link_found {parse : String → ParsedURL} {origin : String} (hweb : ReadsWeb parse origin)
    (happ : ReadsApp parse) (horigin : ∀ c ∈ origin.toList, Trim.isSpace c.toNat = false) :
    (∀ id, isLinkId id = true → Found parse origin id) ∧ Strict parse := by
  refine ⟨fun id hid ↦ ?_, strict parse⟩
  constructor
  · exact ⟨parseLinkId_web hweb hid, parseLinkId_app happ hid⟩
  · intro before after hbefore hafter text htext
    rcases List.mem_cons.mp htext with rfl | htext
    · exact parsePastedLink_id hbefore hafter hid
    rcases List.mem_cons.mp htext with rfl | htext
    · exact parsePastedLink_web hweb horigin hbefore hafter hid
    obtain rfl := List.mem_singleton.mp htext
    exact parsePastedLink_app happ hbefore hafter hid
  · intro search
    unfold readLinkId
    rw [(linkPath_link hid).1, (linkPath_link hid).2]
    exact ⟨rfl, rfl⟩
  · intro pathname hpathname
    exact readLinkId_query hpathname hid
  · constructor
    · unfold appDeepLink
      rw [hid]
      rfl
    · intro webappOrigin
      unfold browserReaderUrl
      rw [hid]
      rfl

/-- The scheme, the authority and what comes after its slash. -/
def splitUrl (url : String) : ParsedURL :=
  let scheme := url.toList.takeWhile (· ≠ ':')
  let rest := url.toList.drop (scheme.length + 3)
  let hostname := rest.takeWhile (· ≠ '/')
  ⟨some (String.ofList scheme), some (String.ofList hostname),
    some (String.ofList (rest.drop (hostname.length + 1)))⟩

theorem link_found_sample : Found splitUrl SECURE_LINK_ORIGIN "aB3_-678CDef0123" ∧ Strict splitUrl := by
  have hweb : ReadsWeb splitUrl SECURE_LINK_ORIGIN := by
    intro id _
    refine ⟨some "www.aesmsg.com", ?_⟩
    have htext : (linkUrl SECURE_LINK_ORIGIN id).toList =
        ['h', 't', 't', 'p', 's', ':', '/', '/', 'w', 'w', 'w', '.', 'a', 'e', 's', 'm', 's', 'g', '.',
          'c', 'o', 'm', '/', 'l', '/'] ++ id.toList := by
      unfold linkUrl
      rw [String.toList_append, String.toList_append]
      rfl
    have hpath : "l/" ++ id = String.ofList ('l' :: '/' :: id.toList) := String.toList_inj.mp (by simp)
    unfold splitUrl
    rw [htext, hpath]
    rfl
  have happ : ReadsApp splitUrl := by
    intro id _
    have htext : ("aesmsg://l/" ++ id).toList =
        ['a', 'e', 's', 'm', 's', 'g', ':', '/', '/', 'l', '/'] ++ id.toList := String.toList_append
    have hid : some id = some (String.ofList id.toList) := by rw [String.ofList_toList]
    unfold splitUrl
    rw [htext, hid]
    rfl
  have horigin : ∀ c ∈ SECURE_LINK_ORIGIN.toList, Trim.isSpace c.toNat = false := no_space (by decide)
  have hall := link_found hweb happ horigin
  exact ⟨hall.1 _ (by decide), hall.2⟩

end Aesmsg.Links.Url
