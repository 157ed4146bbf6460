import LinuxHandson.Lib.CString
import LinuxHandson.Lib.Scanf

/-!
# A small HTTP server

`handle_request` answers what one read of the connection returns. The read returns what has arrived:
the request comes in as many pieces as the connection cuts it into.
-/

namespace HttpServer

open CLib

/-- The three fields of the first line. -/
structure RequestLine where
  method : CStr
  path : CStr
  version : CStr
deriving DecidableEq

/-- `sscanf(request, "%15s %255s %15s", method, path, version)`, if it converts all three. -/
def scanRequest (request : List UInt8) : Option RequestLine :=
  match scanFields [15, 255, 15] request with
  | some [method, path, version] => some ⟨.ofBuf method, .ofBuf path, .ofBuf version⟩
  | _ => none

/-- The pages of the server. -/
inductive Page where
  | index
  | info
  | time
deriving DecidableEq

/-- The responses of the server. -/
inductive Answer where
  | ok (page : Page)
  | notFound
  | methodNotAllowed
deriving DecidableEq

/-- A string literal. -/
def lit (s : String) : CStr := .ofBuf (CStr.ascii s.toList)

/-- What the method and the path select. -/
def route (l : RequestLine) : Answer :=
  if strcmp l.method (lit "GET") ≠ 0 then .methodNotAllowed
  else if strcmp l.path (lit "/") = 0 ∨ strcmp l.path (lit "/index.html") = 0 then .ok .index
  else if strcmp l.path (lit "/info") = 0 then .ok .info
  else if strcmp l.path (lit "/time") = 0 then .ok .time
  else .notFound

/-- What the pages depend on: `getpid()`, and the local time as `strftime` prints it. -/
structure Env where
  pid : Nat
  timebuf : CStr

/-- The body of a page. -/
def Page.body (e : Env) : Page → List UInt8
  | .index => CStr.ascii ("<html>\n<head><title>Mini HTTP Server</title></head>\n<body>\n" ++
      "<h1>Hello from Mini HTTP Server!</h1>\n" ++
      "<p>This is a minimal HTTP/1.0 server written in C.</p>\n<ul>\n" ++
      "  <li><a href=\"/info\">Server Info</a></li>\n" ++
      "  <li><a href=\"/time\">Current Time</a></li>\n</ul>\n</body>\n</html>\n").toList
  | .info => CStr.ascii ("<html><body>\n<h1>Server Info</h1>\n<p>HTTP/1.0 server in C</p>\n" ++
      "<p>PID: ").toList ++ decimal (e.pid : Nat) ++
      CStr.ascii "</p>\n<p><a href=\"/\">Home</a></p>\n</body></html>\n".toList
  | .time => CStr.ascii "<html><body>\n<h1>Server Time</h1>\n<p>".toList ++ e.timebuf.bytes ++
      CStr.ascii "</p>\n<p><a href=\"/\">Home</a></p>\n</body></html>\n".toList

/-- `not_found_body` -/
def notFoundBody : List UInt8 :=
  CStr.ascii "<html><body><h1>404 Not Found</h1></body></html>\n".toList

/-- The writes of an answer, in order. -/
def Answer.writes (e : Env) : Answer → List (List UInt8)
  | .methodNotAllowed => [CStr.ascii ("HTTP/1.0 405 Method Not Allowed\r\n" ++
      "Content-Length: 22\r\n\r\n405 Method Not Allowed").toList]
  | .notFound => [CStr.ascii ("HTTP/1.0 404 Not Found\r\nContent-Type: text/html\r\n" ++
      "Content-Length: ").toList ++ decimal (notFoundBody.length : Nat) ++
      CStr.ascii "\r\n\r\n".toList ++ notFoundBody]
  | .ok page => [CStr.ascii ("HTTP/1.0 200 OK\r\nContent-Type: text/html\r\n" ++
      "Content-Length: ").toList ++ decimal ((page.body e).length : Nat) ++
      CStr.ascii "\r\nConnection: close\r\n\r\n".toList, page.body e]

/-- `sizeof(request)` -/
def requestSize : Nat := 4096

/-- `read(fd, request, sizeof(request) - 1)` on a connection that delivers some chunks. -/
def readRequest (chunks : List (List UInt8)) : List UInt8 := (chunks.headD []).take (requestSize - 1)

/-- The answer of `handle_request`, if it sends one. -/
def answer (chunks : List (List UInt8)) : Option Answer :=
  let request := readRequest chunks
  if request.length = 0 then none
  else (scanRequest (CStr.ofBuf (request ++ [0])).bytes).map route

/-- `handle_request`: what it writes. -/
def handleRequest (e : Env) (chunks : List (List UInt8)) : List (List UInt8) :=
  ((answer chunks).map (Answer.writes e)).getD []

/-- Where the third field of a request begins, if it has three. -/
def versionAt (request : List UInt8) : Option Nat := fieldAt [15, 255] request

/-- The first chunk goes beyond the first byte of the third field, if the request has one. -/
def FirstLineRead (chunks : List (List UInt8)) : Prop :=
  ∀ p, versionAt (CStr.ofBuf chunks.flatten).bytes = some p → p < (chunks.headD []).length

end HttpServer
