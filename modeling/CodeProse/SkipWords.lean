/-
# Words that are never misspelled

The vocabulary of code: global names, names of members, and words that code prose uses but general
dictionaries lack. All configurations start from these words.
-/
import CodeProse.Text.Order
import CodeProse.Unicode.CaseMap

namespace CodeProse

/-- Global names of the language. -/
def builtinGlobals : List String :=
  [
    "AggregateError", "Array", "ArrayBuffer", "Atomics", "BigInt", "BigInt64Array",
    "BigUint64Array", "Boolean", "DataView", "Date", "decodeURI", "decodeURIComponent",
    "encodeURI", "encodeURIComponent", "Error", "escape", "eval", "EvalError",
    "FinalizationRegistry", "Float32Array", "Float64Array", "Function", "globalThis", "Infinity",
    "Int16Array", "Int32Array", "Int8Array", "Intl", "isFinite", "isNaN", "JSON", "Map", "Math",
    "NaN", "Number", "Object", "parseFloat", "parseInt", "Promise", "Proxy", "RangeError",
    "ReferenceError", "Reflect", "RegExp", "Set", "SharedArrayBuffer", "String", "Symbol",
    "SyntaxError", "TypeError", "Uint16Array", "Uint32Array", "Uint8Array", "Uint8ClampedArray",
    "undefined", "unescape", "URIError", "WeakMap", "WeakRef", "WeakSet"
  ]

/-- Global names of browsers. -/
def browserGlobals : List String :=
  [
    "addEventListener", "alert", "atob", "Blob", "btoa", "cancelAnimationFrame", "clearInterval",
    "clearTimeout", "console", "CustomEvent", "document", "Element", "Event", "EventTarget",
    "fetch", "File", "FileReader", "FormData", "getComputedStyle", "Headers", "history",
    "HTMLElement", "IntersectionObserver", "localStorage", "location", "MutationObserver",
    "navigator", "Node", "NodeList", "Notification", "performance", "postMessage",
    "removeEventListener", "Request", "requestAnimationFrame", "ResizeObserver", "Response",
    "screen", "sessionStorage", "setInterval", "setTimeout", "TextDecoder", "TextEncoder", "URL",
    "URLSearchParams", "WebSocket", "window", "Worker", "XMLHttpRequest"
  ]

/-- Global names of the runtime outside browsers. -/
def serverGlobals : List String :=
  [
    "__dirname", "__filename", "Buffer", "clearImmediate", "exports", "global", "module",
    "process", "queueMicrotask", "require", "setImmediate", "structuredClone"
  ]

/-- Global names of workers. -/
def workerGlobals : List String :=
  [
    "importScripts", "onmessage", "self", "WorkerGlobalScope"
  ]

/-- Names of members of the builtin objects. -/
def builtinMembers : List String :=
  [
    "apply", "bind", "call", "charAt", "charCodeAt", "codePointAt", "concat", "constructor",
    "copyWithin", "defineProperty", "endsWith", "entries", "every", "fill", "filter", "find",
    "findIndex", "flat", "flatMap", "forEach", "freeze", "fromCharCode", "fromEntries",
    "getOwnPropertyNames", "getPrototypeOf", "hasOwnProperty", "includes", "indexOf", "isArray",
    "isPrototypeOf", "join", "keys", "lastIndexOf", "localeCompare", "map", "matchAll",
    "normalize", "padEnd", "padStart", "pop", "propertyIsEnumerable", "push", "reduce",
    "reduceRight", "repeat", "replaceAll", "reverse", "shift", "slice", "some", "sort", "splice",
    "split", "startsWith", "stringify", "substr", "substring", "toFixed", "toLocaleString",
    "toLowerCase", "toPrecision", "toString", "toUpperCase", "trim", "trimEnd", "trimStart",
    "unshift", "valueOf", "abs", "ceil", "floor", "hypot", "max", "min", "pow", "random",
    "round", "sign", "sqrt", "trunc"
  ]

/-- Words of code prose. -/
def programmingWords : List String :=
  [
    "ajax", "api", "apis", "args", "argv", "async", "auth", "bool", "callback", "cb", "charset",
    "cli", "config", "const", "css", "ctx", "dev", "dom", "env", "eslint", "func", "href",
    "html", "http", "https", "init", "js", "json", "jsx", "lang", "len", "lib", "localhost",
    "msg", "namespace", "npm", "num", "obj", "param", "params", "pathname", "prev", "readme",
    "regex", "regexp", "repo", "req", "res", "src", "str", "stylesheet", "sql", "tmp", "todo",
    "fixme", "ts", "tsx", "ui", "uri", "url", "utf", "utils", "uuid", "var", "webpack", "xml",
    "yaml"
  ]

/-- Puts words into lower case, sorts them and leaves each of them once. -/
def skipWordSet (words : List Text) : List Text :=
  Text.sortDistinct (words.map Unicode.lowercase)

/-- The words as listed. -/
def vocabulary : List Text :=
  (builtinGlobals ++ browserGlobals ++ serverGlobals ++ workerGlobals ++ builtinMembers
    ++ programmingWords).map String.toList

/-- The words that every configuration accepts: in lower case, sorted, each once. -/
def defaultSkipWords : List Text :=
  skipWordSet vocabulary

end CodeProse
