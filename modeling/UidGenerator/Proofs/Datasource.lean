import UidGenerator.Proofs.Batch
import UidGenerator.Proofs.Strings
import UidGenerator.Proofs.StoredProperties
import UidGenerator.Spec.Datasource

/-! The session that the settings open. The scans of a url find the parts it is made of, the
first setting that is missing decides the error, and every connection can be configured. -/

namespace UID

def portText : Option JsString → JsString
  | none => []
  | some digits => unit ':' :: digits

/-- The parts of a MySQL url. The query, if there is one, begins with its mark. -/
structure IsMysqlUrl (url host : JsString) (port : Option JsString) (database query : JsString) :
    Prop where
  parts : url = MYSQL_SCHEME ++ js "//" ++
    (host ++ (portText port ++ unit '/' :: (database ++ query)))
  host_ne_nil : host ≠ []
  hostUnits : ∀ c ∈ host, isHostUnit c = true
  digits : ∀ digits ∈ port, digits ≠ [] ∧ ∀ c ∈ digits, isDigit c = true
  noQuery : ∀ c ∈ database, notQuery c = true
  query : ∀ c ∈ query.head?, notQuery c = false

/-- The longest run of characters of a kind. -/
theorem takeWhile_iff {p : CodeUnit → Bool} {s run rest : JsString} :
    s.takeWhile p = run ∧ s.dropWhile p = rest ↔
      s = run ++ rest ∧ (∀ c ∈ run, p c = true) ∧ ∀ c ∈ rest.head?, p c = false := by
  refine ⟨?_, ?_⟩
  · rintro ⟨rfl, rfl⟩
    refine ⟨List.takeWhile_append_dropWhile.symm, fun c hc => List.mem_takeWhile_imp hc, ?_⟩
    intro c hc
    have hstop := List.head?_dropWhile_not p s
    rw [hc] at hstop
    exact Bool.eq_false_iff.2 (by simpa using hstop)
  · rintro ⟨rfl, hrun, hrest⟩
    have hnone : rest.takeWhile p = [] ∧ rest.dropWhile p = rest := by
      cases rest with
      | nil => exact ⟨rfl, rfl⟩
      | cons c rest =>
        have hc := hrest c rfl
        exact ⟨List.takeWhile_cons_of_neg (by simp [hc]), List.dropWhile_cons_of_neg (by simp [hc])⟩
    rw [List.takeWhile_append_of_pos hrun, List.dropWhile_append_of_pos hrun, hnone.1, hnone.2,
      List.append_nil]
    exact ⟨rfl, rfl⟩

theorem stripStart_iff {start s rest : JsString} : stripStart start s = some rest ↔ s = start ++ rest := by
  rw [stripStart]
  split_ifs with hstart
  · obtain ⟨found, rfl⟩ := List.isPrefixOf_iff_prefix.1 hstart
    rw [List.drop_left, Option.some.injEq, List.append_cancel_left_eq]
  · refine iff_of_false nofun ?_
    rintro rfl
    exact hstart (List.isPrefixOf_iff_prefix.2 (List.prefix_append _ _))

theorem matchDatabase_iff {rest database : JsString} :
    matchDatabase rest = some database ↔ ∃ query, rest = unit '/' :: (database ++ query) ∧
      (∀ c ∈ database, notQuery c = true) ∧ ∀ c ∈ query.head?, notQuery c = false := by
  cases rest with
  | nil => exact iff_of_false nofun fun h => nomatch h
  | cons c rest =>
    rw [matchDatabase]
    split_ifs with hc
    · subst hc
      rw [Option.some.injEq]
      refine ⟨fun hrun => ?_, ?_⟩
      · obtain ⟨hsplit, hdatabase⟩ := takeWhile_iff.1 ⟨hrun, rfl⟩
        exact ⟨_, congrArg (unit '/' :: ·) hsplit, hdatabase⟩
      · rintro ⟨query, hcons, hdatabase⟩
        exact (takeWhile_iff.2 ⟨(List.cons.inj hcons).2, hdatabase⟩).1
    · refine iff_of_false nofun ?_
      rintro ⟨query, hcons, -⟩
      exact hc (List.cons.inj hcons).1

theorem matchPort_iff {rest database : JsString} {port : Option JsString} :
    matchPort rest = some (port, database) ↔
      ∃ query, rest = portText port ++ unit '/' :: (database ++ query) ∧
        (∀ digits ∈ port, digits ≠ [] ∧ ∀ c ∈ digits, isDigit c = true) ∧
        (∀ c ∈ database, notQuery c = true) ∧ ∀ c ∈ query.head?, notQuery c = false := by
  cases rest with
  | nil =>
    refine iff_of_false nofun ?_
    rintro ⟨query, hrest, -⟩
    exact List.append_ne_nil_of_right_ne_nil _ (List.cons_ne_nil _ _) hrest.symm
  | cons c rest =>
    rw [matchPort]
    by_cases hcolon : c = unit ':'
    · subst hcolon
      obtain ⟨hsplit, hdigits, -⟩ := takeWhile_iff (p := isDigit) (s := rest).1 ⟨rfl, rfl⟩
      rw [if_pos rfl]
      refine ⟨fun hfound => ?_, ?_⟩
      · by_cases hnil : rest.takeWhile isDigit = []
        · simp only [if_pos hnil] at hfound
          cases hfound
        · simp only [if_neg hnil] at hfound
          obtain ⟨found, hdatabase, heq⟩ := Option.map_eq_some_iff.1 hfound
          obtain ⟨rfl, rfl⟩ := Prod.mk.inj heq
          obtain ⟨query, hrest, hquery⟩ := matchDatabase_iff.1 hdatabase
          refine ⟨query, ?_, fun digits hport => ?_, hquery⟩
          · rw [portText, List.cons_append, ← hrest, ← hsplit]
          · obtain rfl := Option.some.inj hport
            exact ⟨hnil, hdigits⟩
      · rintro ⟨query, hrest, hport, hquery⟩
        cases port with
        | none => exact absurd (List.cons.inj hrest).1 (by decide)
        | some digits =>
          obtain ⟨hne, hall⟩ := hport digits rfl
          have hslash : ∀ c ∈ (unit '/' :: (database ++ query)).head?, isDigit c = false := by
            intro c hc
            obtain rfl : unit '/' = c := Option.some.inj hc
            decide
          obtain ⟨htake, hdrop⟩ := takeWhile_iff.2 ⟨(List.cons.inj hrest).2, hall, hslash⟩
          simp only [htake, hdrop, if_neg hne, matchDatabase_iff.2 ⟨query, rfl, hquery⟩]
          rfl
    · rw [if_neg hcolon]
      refine ⟨fun hfound => ?_, ?_⟩
      · obtain ⟨found, hdatabase, heq⟩ := Option.map_eq_some_iff.1 hfound
        obtain ⟨rfl, rfl⟩ := Prod.mk.inj heq
        obtain ⟨query, hrest, hquery⟩ := matchDatabase_iff.1 hdatabase
        exact ⟨query, hrest, nofun, hquery⟩
      · rintro ⟨query, hrest, hport, hquery⟩
        cases port with
        | none =>
          rw [matchDatabase_iff.2 ⟨query, hrest, hquery⟩]
          rfl
        | some digits => exact absurd (List.cons.inj hrest).1 hcolon

theorem matchHost_iff {rest host database : JsString} {port : Option JsString} :
    matchHost rest = some (host, port, database) ↔
      ∃ query, IsMysqlUrl (MYSQL_SCHEME ++ js "//" ++ rest) host port database query := by
  rw [matchHost]
  obtain ⟨hsplit, hunits, -⟩ := takeWhile_iff (p := isHostUnit) (s := rest).1 ⟨rfl, rfl⟩
  refine ⟨fun hfound => ?_, ?_⟩
  · by_cases hnil : rest.takeWhile isHostUnit = []
    · simp only [if_pos hnil] at hfound
      cases hfound
    simp only [if_neg hnil] at hfound
    obtain ⟨⟨found, name⟩, hport, heq⟩ := Option.map_eq_some_iff.1 hfound
    obtain ⟨rfl, hfields⟩ := Prod.mk.inj heq
    obtain ⟨rfl, rfl⟩ := Prod.mk.inj hfields
    obtain ⟨query, hrest, hdigits, hdatabase, hquery⟩ := matchPort_iff.1 hport
    refine ⟨query, ?_, hnil, hunits, hdigits, hdatabase, hquery⟩
    rw [← hrest, ← hsplit]
  · rintro ⟨query, hparts, hne, hhost, hdigits, hdatabase, hquery⟩
    have hstop : ∀ c ∈ (portText port ++ unit '/' :: (database ++ query)).head?, isHostUnit c = false := by
      intro c hc
      cases port with
      | none =>
        obtain rfl : unit '/' = c := Option.some.inj hc
        decide
      | some digits =>
        obtain rfl : unit ':' = c := Option.some.inj hc
        decide
    obtain ⟨htake, hdrop⟩ := takeWhile_iff.2 ⟨List.append_cancel_left hparts, hhost, hstop⟩
    have hport := matchPort_iff.2 ⟨query, rfl, hdigits, hdatabase, hquery⟩
    simp only [htake, hdrop, if_neg hne, hport]
    rfl

theorem parseMysqlJdbcUrl_of_isMysqlUrl {url host database query : JsString} {port : Option JsString}
    (h : IsMysqlUrl url host port database query) :
    parseMysqlJdbcUrl url = .ok ⟨host, port.elim (some 3306) numberOfDigits, database⟩ := by
  obtain ⟨rest, rfl⟩ : ∃ rest, url = MYSQL_SCHEME ++ js "//" ++ rest := ⟨_, h.parts⟩
  have hstrip : stripStart (MYSQL_SCHEME ++ js "//") (MYSQL_SCHEME ++ js "//" ++ rest) = some rest :=
    stripStart_iff.2 rfl
  rw [parseMysqlJdbcUrl, hstrip, Option.bind_some, matchHost_iff.2 ⟨query, h⟩]

theorem parseMysqlJdbcUrl_of_not {url : JsString}
    (h : ∀ host port database query, ¬IsMysqlUrl url host port database query) :
    parseMysqlJdbcUrl url = .error (unsupportedUrl url) := by
  have hnone : (stripStart (MYSQL_SCHEME ++ js "//") url).bind matchHost = none := by
    cases hstrip : stripStart (MYSQL_SCHEME ++ js "//") url with
    | none => rfl
    | some rest =>
      obtain rfl := stripStart_iff.1 hstrip
      rw [Option.bind_some, Option.eq_none_iff_forall_ne_some]
      rintro ⟨host, port, database⟩ hfound
      obtain ⟨query, hurl⟩ := matchHost_iff.1 hfound
      exact h host port database query hurl
  rw [parseMysqlJdbcUrl, hnone]

def unresolved (key : JsString) : Throwable := .error s!"Could not resolve placeholder '{text key}'"

inductive Opens (setting : JsString → Option JsString) : Except Throwable OpenedSession → Prop
  | noUrl (h : setting (js "jdbc.url") = none) : Opens setting (.error (unresolved (js "jdbc.url")))
  | unsupported (url : JsString) (h : setting (js "jdbc.url") = some url)
      (notSqlite : ∀ location, (∀ c ∈ location, isLineTerminator c = false) →
        url ≠ SQLITE_SCHEME ++ location)
      (notMysql : ∀ host port database query, ¬IsMysqlUrl url host port database query) :
      Opens setting (.error (unsupportedUrl url))
  | sqlite (location : JsString) (h : setting (js "jdbc.url") = some (SQLITE_SCHEME ++ location))
      (oneLine : ∀ c ∈ location, isLineTerminator c = false) :
      Opens setting (.ok (.sqlite (if location = [] then js ":memory:" else location)))
  | noUser (url host : JsString) (port : Option JsString) (database query : JsString)
      (h : setting (js "jdbc.url") = some url) (isUrl : IsMysqlUrl url host port database query)
      (user : setting (js "jdbc.username") = none) :
      Opens setting (.error (unresolved (js "jdbc.username")))
  | noPassword (url host : JsString) (port : Option JsString) (database query user : JsString)
      (h : setting (js "jdbc.url") = some url) (isUrl : IsMysqlUrl url host port database query)
      (hasUser : setting (js "jdbc.username") = some user)
      (password : setting (js "jdbc.password") = none) :
      Opens setting (.error (unresolved (js "jdbc.password")))
  | mysql (url host : JsString) (port : Option JsString) (database query user password : JsString)
      (h : setting (js "jdbc.url") = some url) (isUrl : IsMysqlUrl url host port database query)
      (hasUser : setting (js "jdbc.username") = some user)
      (hasPassword : setting (js "jdbc.password") = some password) :
      Opens setting (.ok (.mysql
        { host, port := port.elim (some 3306) numberOfDigits, database, user, password }))

variable {properties : Properties}

theorem requireProperty_of_none {key : JsString} (h : properties.get key = none) :
    requireProperty properties key = .error (unresolved key) := by
  rw [requireProperty, h, unresolved]

theorem requireProperty_of_some {key value : JsString} (h : properties.get key = some value) :
    requireProperty properties key = .ok value := by
  rw [requireProperty, h]

theorem IsMysqlUrl.scheme {url host database query : JsString} {port : Option JsString}
    (h : IsMysqlUrl url host port database query) :
    SQLITE_SCHEME.isPrefixOf url = false ∧ MYSQL_SCHEME.isPrefixOf url = true := by
  rw [h.parts]
  exact ⟨rfl, rfl⟩

/-- With a MySQL url, the session is that of the connection options. -/
theorem openSqlSession_of_isMysqlUrl {url host database query : JsString} {port : Option JsString}
    (h : properties.get (js "jdbc.url") = some url) (hurl : IsMysqlUrl url host port database query) :
    openSqlSession properties = do
      let user ← requireProperty properties (js "jdbc.username")
      let password ← requireProperty properties (js "jdbc.password")
      return .mysql { host, port := port.elim (some 3306) numberOfDigits, database, user, password } := by
  obtain ⟨hsqlite, hmysql⟩ := hurl.scheme
  have hread := requireProperty_of_some h
  rw [openSqlSession, hread]
  simp only [openMysqlSqlSession, mysqlConnectionOptions, hread, hsqlite, hmysql,
    parseMysqlJdbcUrl_of_isMysqlUrl hurl, bind, Except.bind, pure, Except.pure, if_true]
  rw [if_neg Bool.false_ne_true]
  cases requireProperty properties (js "jdbc.username") with
  | error e => rfl
  | ok user =>
    cases requireProperty properties (js "jdbc.password") with
    | error e => rfl
    | ok password => rfl

theorem parseSqliteJdbcUrl_append (location : JsString) :
    parseSqliteJdbcUrl (SQLITE_SCHEME ++ location) =
      if location.any isLineTerminator then .error (unsupportedUrl (SQLITE_SCHEME ++ location))
      else .ok (if location = [] then js ":memory:" else location) := by
  rw [parseSqliteJdbcUrl, stripStart_iff.2 rfl]

/-- With a SQLite url, the session is that of its location. -/
theorem openSqlSession_of_sqlite {location : JsString}
    (h : properties.get (js "jdbc.url") = some (SQLITE_SCHEME ++ location)) :
    openSqlSession properties =
      if location.any isLineTerminator then .error (unsupportedUrl (SQLITE_SCHEME ++ location))
      else .ok (.sqlite (if location = [] then js ":memory:" else location)) := by
  have hstart : SQLITE_SCHEME.isPrefixOf (SQLITE_SCHEME ++ location) = true :=
    List.isPrefixOf_iff_prefix.2 (List.prefix_append _ _)
  simp only [openSqlSession, openSqliteSqlSession, requireProperty_of_some h, hstart, bind, Except.bind,
    pure, Except.pure, if_true, parseSqliteJdbcUrl_append]
  by_cases hlines : location.any isLineTerminator = true
  · simp only [if_pos hlines]
  · simp only [if_neg hlines]

theorem openSqlSession_of_unsupported {url : JsString} (h : properties.get (js "jdbc.url") = some url)
    (hsqlite : ∀ location, (∀ c ∈ location, isLineTerminator c = false) → url ≠ SQLITE_SCHEME ++ location)
    (hmysql : ∀ host port database query, ¬IsMysqlUrl url host port database query) :
    openSqlSession properties = .error (unsupportedUrl url) := by
  by_cases hstart : SQLITE_SCHEME.isPrefixOf url = true
  · obtain ⟨location, rfl⟩ := List.isPrefixOf_iff_prefix.1 hstart
    have hlines : location.any isLineTerminator = true := by
      by_contra hnone
      refine hsqlite location (fun c hc => ?_) rfl
      exact Bool.eq_false_iff.2 fun hterminator => hnone (List.any_eq_true.2 ⟨c, hc, hterminator⟩)
    rw [openSqlSession_of_sqlite h, if_pos hlines]
  · simp only [openSqlSession, requireProperty_of_some h, openMysqlSqlSession, mysqlConnectionOptions,
      parseMysqlJdbcUrl_of_not hmysql, bind, Except.bind, if_neg hstart]
    split_ifs <;> rfl

/-- Whatever the settings open, the code opens. -/
theorem Opens.openSqlSession {outcome : Except Throwable OpenedSession}
    (h : Opens properties.get outcome) : openSqlSession properties = outcome := by
  cases h with
  | noUrl hurl =>
    rw [UID.openSqlSession, requireProperty_of_none hurl]
    rfl
  | unsupported url hurl notSqlite notMysql => exact openSqlSession_of_unsupported hurl notSqlite notMysql
  | sqlite location hurl oneLine =>
    rw [openSqlSession_of_sqlite hurl, if_neg]
    rw [List.any_eq_true]
    rintro ⟨c, hc, hterminator⟩
    rw [oneLine c hc] at hterminator
    cases hterminator
  | noUser url host port database query hurl isUrl user =>
    rw [openSqlSession_of_isMysqlUrl hurl isUrl, requireProperty_of_none user]
    rfl
  | noPassword url host port database query user hurl isUrl hasUser password =>
    rw [openSqlSession_of_isMysqlUrl hurl isUrl, requireProperty_of_some hasUser,
      requireProperty_of_none password]
    rfl
  | mysql url host port database query user password hurl isUrl hasUser hasPassword =>
    rw [openSqlSession_of_isMysqlUrl hurl isUrl, requireProperty_of_some hasUser,
      requireProperty_of_some hasPassword]
    rfl

/-- Settings open a session or fail. -/
theorem exists_opens (setting : JsString → Option JsString) : ∃ outcome, Opens setting outcome := by
  cases hurl : setting (js "jdbc.url") with
  | none => exact ⟨_, .noUrl hurl⟩
  | some url =>
    by_cases hsqlite : ∃ location, (∀ c ∈ location, isLineTerminator c = false) ∧
        url = SQLITE_SCHEME ++ location
    · obtain ⟨location, hline, rfl⟩ := hsqlite
      exact ⟨_, .sqlite location hurl hline⟩
    by_cases hmysql : ∃ host port database query, IsMysqlUrl url host port database query
    · obtain ⟨host, port, database, query, isUrl⟩ := hmysql
      cases huser : setting (js "jdbc.username") with
      | none => exact ⟨_, .noUser url host port database query hurl isUrl huser⟩
      | some user =>
        cases hpassword : setting (js "jdbc.password") with
        | none => exact ⟨_, .noPassword url host port database query user hurl isUrl huser hpassword⟩
        | some password =>
          exact ⟨_, .mysql url host port database query user password hurl isUrl huser hpassword⟩
    · refine ⟨_, .unsupported url hurl (fun location hline heq => hsqlite ⟨location, hline, heq⟩) ?_⟩
      exact fun host port database query isUrl => hmysql ⟨host, port, database, query, isUrl⟩

def settingOf (texts : List JsString) (key : JsString) : Option JsString :=
  texts.reverse.findSome? fun text => (parseProperties text).get key

/-- The session that the files open is the one that their last settings of the url, the user
and the password open. -/
theorem opened_session_iff (texts : List JsString) (outcome : Except Throwable OpenedSession) :
    openSqlSession (loadProperties texts) = outcome ↔ Opens (settingOf texts) outcome := by
  have hsetting : (loadProperties texts).get = settingOf texts := funext (get_loadProperties texts)
  rw [← hsetting]
  refine ⟨?_, Opens.openSqlSession⟩
  rintro rfl
  obtain ⟨outcome, hopens⟩ := exists_opens (loadProperties texts).get
  rwa [hopens.openSqlSession]

theorem two_pow_53_le {j k : ℕ} (h : 53 ≤ k) (hj : j = k + 54) : 2 ^ 53 ≤ 2 ^ j - 2 ^ k := by
  have hle : 2 ^ 53 ≤ 2 ^ k := Nat.pow_le_pow_right (by decide) h
  rw [hj, pow_add]
  omega

theorem numberOfDigits_decimal {n : ℕ} (h : n < 2 ^ 53) :
    numberOfDigits (decimal n) = some (n : ℤ) := by
  rw [numberOfDigits, number_decimal, roundToDouble_of_lt _ (by simpa using h), if_pos]
  exact h.trans_le (two_pow_53_le (by decide) (by decide))

def mysqlUrl (host : JsString) (port : ℕ) (database : JsString) : JsString :=
  MYSQL_SCHEME ++ js "//" ++ (host ++ unit ':' :: (decimal port ++ unit '/' :: database))

theorem isMysqlUrl_mysqlUrl {host database : JsString} (hne : host ≠ [])
    (hhost : ∀ c ∈ host, isHostUnit c = true) (hdatabase : ∀ c ∈ database, notQuery c = true) (port : ℕ) :
    IsMysqlUrl (mysqlUrl host port database) host (some (decimal port)) database [] where
  parts := by
    rw [mysqlUrl, List.append_nil]
    rfl
  host_ne_nil := hne
  hostUnits := hhost
  digits := by
    intro digits hdigits
    obtain rfl := Option.some.inj hdigits
    exact ⟨decimal_ne_nil port, isDigit_decimal port⟩
  noQuery := hdatabase
  query := by simp

def mysqlSettings (url user password : JsString) : Properties :=
  ⟨[(js "jdbc.url", url), (js "jdbc.username", user), (js "jdbc.password", password)], by
    change [js "jdbc.url", js "jdbc.username", js "jdbc.password"].Nodup
    decide⟩

/-- Every connection to a MySQL server can be configured, in a file of printable ASCII that
is read after any others. -/
theorem connection_configured {host database : JsString} {port : ℕ} (hne : host ≠ [])
    (hhost : ∀ c ∈ host, isHostUnit c = true) (hport : port < 2 ^ 53)
    (hdatabase : ∀ c ∈ database, notQuery c = true) (user password : JsString) :
    ∃ text, (∀ c ∈ text, c = LF ∨ SPACE ≤ c ∧ c ≤ unit '~') ∧
      ∀ texts, openSqlSession (loadProperties (texts ++ [text])) =
        .ok (.mysql { host, port := some (port : ℤ), database, user, password }) := by
  let settings := mysqlSettings (mysqlUrl host port database) user password
  have hurl := isMysqlUrl_mysqlUrl hne hhost hdatabase port
  refine ⟨document escapedLine settings, graphic_document isLine_escapedLine settings, fun texts => ?_⟩
  have hget : ∀ key value, settings.get key = some value →
      (loadProperties (texts ++ [document escapedLine settings])).get key = some value := by
    intro key value hvalue
    rw [loadProperties_escaped, OrderedMap.get_override, hvalue]
    rfl
  have hopens : Opens (loadProperties (texts ++ [document escapedLine settings])).get _ :=
    .mysql _ _ _ _ _ _ _ (hget (js "jdbc.url") _ rfl) hurl (hget (js "jdbc.username") user rfl)
      (hget (js "jdbc.password") password rfl)
  rw [hopens.openSqlSession, Option.elim_some, numberOfDigits_decimal hport]

/-- A local server, configured after a file for another database. -/
theorem connection_configured_localhost :
    ∃ text, openSqlSession (loadProperties [js "jdbc.url=jdbc:sqlite:uid.db", text]) =
      .ok (.mysql
        { host := js "localhost", port := some 3306, database := js "uid", user := js "root",
          password := js " p=w\\" }) := by
  obtain ⟨text, -, hopens⟩ := @connection_configured (js "localhost") (js "uid") 3306 (by decide)
    (by decide) (by decide) (by decide) (js "root") (js " p=w\\")
  exact ⟨text, hopens [js "jdbc.url=jdbc:sqlite:uid.db"]⟩

end UID
