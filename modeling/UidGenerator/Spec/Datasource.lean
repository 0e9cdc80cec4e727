import UidGenerator.Spec.Properties

/-! `datasource.ts`, with the settings that `mysql-sql-session.ts` and
`sqlite-sql-session.ts` open a session by. A session stands for the call of the driver
that opens it. -/

namespace UID

def unsupportedUrl (url : JsString) : Throwable := .error s!"Unsupported JDBC url: {text url}"

def stripStart (start s : JsString) : Option JsString :=
  if start.isPrefixOf s then some (s.drop start.length) else none

def MYSQL_SCHEME : JsString := js "jdbc:mysql:"

/-- `Number` of a text of digits, where `none` is `Infinity`. -/
def numberOfDigits (digits : JsString) : Option ℤ :=
  if number digits < 2 ^ 1024 - 2 ^ 970 then some (roundToDouble (number digits)) else none

/-- `/[^/:?]/`. -/
def isHostUnit (c : CodeUnit) : Bool := decide (c ≠ unit '/' ∧ c ≠ unit ':' ∧ c ≠ unit '?')

def notQuery (c : CodeUnit) : Bool := decide (c ≠ unit '?')

/-- `/\/([^?]*)/`. -/
def matchDatabase : JsString → Option JsString
  | [] => none
  | c :: rest => if c = unit '/' then some (rest.takeWhile notQuery) else none

/-- `/(?::(\d+))?\/([^?]*)/`. -/
def matchPort : JsString → Option (Option JsString × JsString)
  | [] => none
  | c :: rest =>
    if c = unit ':' then
      let digits := rest.takeWhile isDigit
      if digits = [] then none
      else (matchDatabase (rest.dropWhile isDigit)).map fun database => (some digits, database)
    else (matchDatabase (c :: rest)).map fun database => (none, database)

/-- `/([^/:?]+)(?::(\d+))?\/([^?]*)/`: a host goes as far as it can. -/
def matchHost (rest : JsString) : Option (JsString × Option JsString × JsString) :=
  let host := rest.takeWhile isHostUnit
  if host = [] then none else (matchPort (rest.dropWhile isHostUnit)).map fun found => (host, found)

structure MysqlUrl where
  host : JsString
  port : Option ℤ
  database : JsString

def parseMysqlJdbcUrl (url : JsString) : Except Throwable MysqlUrl :=
  match (stripStart (MYSQL_SCHEME ++ js "//") url).bind matchHost with
  | none => .error (unsupportedUrl url)
  | some (host, port, database) =>
    .ok { host, port := port.elim (some 3306) numberOfDigits, database }

structure MysqlConnectionOptions extends MysqlUrl where
  user : JsString
  password : JsString
  dateStrings : List JsString := [js "DATE"]

def mysqlConnectionOptions (properties : Properties) : Except Throwable MysqlConnectionOptions := do
  let url ← parseMysqlJdbcUrl (← requireProperty properties (js "jdbc.url"))
  let user ← requireProperty properties (js "jdbc.username")
  let password ← requireProperty properties (js "jdbc.password")
  return { toMysqlUrl := url, user, password }

def SQLITE_SCHEME : JsString := js "jdbc:sqlite:"

/-- `parseSqliteJdbcUrl`. A path of several lines does not match. -/
def parseSqliteJdbcUrl (url : JsString) : Except Throwable JsString :=
  match stripStart SQLITE_SCHEME url with
  | none => .error (unsupportedUrl url)
  | some location =>
    if location.any isLineTerminator then .error (unsupportedUrl url)
    else .ok (if location = [] then js ":memory:" else location)

inductive OpenedSession
  | sqlite (path : JsString)
  | mysql (options : MysqlConnectionOptions)

def openSqliteSqlSession (properties : Properties) : Except Throwable OpenedSession := do
  return .sqlite (← parseSqliteJdbcUrl (← requireProperty properties (js "jdbc.url")))

def openMysqlSqlSession (properties : Properties) : Except Throwable OpenedSession := do
  return .mysql (← mysqlConnectionOptions properties)

def openSqlSession (properties : Properties) : Except Throwable OpenedSession := do
  let url ← requireProperty properties (js "jdbc.url")
  if SQLITE_SCHEME.isPrefixOf url then openSqliteSqlSession properties
  else if MYSQL_SCHEME.isPrefixOf url then openMysqlSqlSession properties
  else throw (unsupportedUrl url)

end UID
