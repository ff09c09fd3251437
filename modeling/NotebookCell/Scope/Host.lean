/-!
# Names of the host

The names that the environment of a notebook provides. A cell may read them without naming them as
inputs, and it may neither declare nor assign them.
-/

namespace NotebookCell.Scope

/-- The names that belong to the host. -/
def hostNames : List String :=
  ["AbortController", "Array", "ArrayBuffer", "AudioContext", "BigInt", "BigInt64Array",
    "BigUint64Array", "Blob", "Boolean", "CustomEvent", "DataView", "Date", "DOMParser", "Error",
    "EvalError", "Event", "EventTarget", "File", "FileList", "FileReader", "Float32Array",
    "Float64Array", "FormData", "Function", "Headers", "Image", "ImageData", "Infinity",
    "Int16Array", "Int32Array", "Int8Array", "Intl", "JSON", "Map", "Math", "NaN", "Number",
    "Object", "Path2D", "Promise", "Proxy", "RangeError", "ReferenceError", "Reflect", "RegExp",
    "Request", "Response", "Set", "String", "Symbol", "SyntaxError", "TextDecoder",
    "TextEncoder", "TypeError", "URIError", "URL", "URLSearchParams", "Uint16Array",
    "Uint32Array", "Uint8Array", "Uint8ClampedArray", "WeakMap", "WeakRef", "WeakSet",
    "WebSocket", "Worker", "atob", "btoa", "cancelAnimationFrame", "clearInterval",
    "clearTimeout", "console", "crypto", "decodeURI", "decodeURIComponent", "devicePixelRatio",
    "document", "encodeURI", "encodeURIComponent", "escape", "eval", "fetch", "globalThis",
    "history", "isFinite", "isNaN", "localStorage", "location", "navigator", "parseFloat",
    "parseInt", "performance", "queueMicrotask", "requestAnimationFrame", "sessionStorage",
    "setInterval", "setTimeout", "structuredClone", "this", "undefined", "unescape", "window"]

/-- Whether a name belongs to the host. -/
def isHostName (name : String) : Bool := hostNames.contains name

end NotebookCell.Scope
